import Mathlib.Algebra.Order.BigOperators.Group.List
import Symphony.Spec.RuneShares
import Symphony.Sync.Runes

/-! The allocation of runes keeps their totals and follows the shares in natural numbers. -/

namespace Symphony

open Encdec

namespace Build

variable (build : Build) {first second : U128}

theorem add_ok (bounded : first.toNat + second.toNat < 2 ^ 128) :
    build.add first second = .ok (first + second) := by
  rw [add, if_neg]
  rintro ⟨_, overflow⟩
  omega

theorem sub_ok (enough : second.toNat ≤ first.toNat) :
    build.sub first second = .ok (first - second) := by
  rw [sub, if_neg]
  rintro ⟨_, underflow⟩
  omega

end Build

theorem smaller_le (first second : U128) :
    (smaller first second).toNat ≤ first.toNat ∧ (smaller first second).toNat ≤ second.toNat := by
  rw [smaller]
  split
  · rename_i below
    exact ⟨le_rfl, BitVec.le_def.mp below⟩
  · rename_i above
    rw [BitVec.le_def] at above
    exact ⟨by omega, le_rfl⟩

theorem toNat_smaller (first second : U128) :
    (smaller first second).toNat = min first.toNat second.toNat := by
  rw [smaller]
  split
  · rename_i below
    exact (Nat.min_eq_left (BitVec.le_def.mp below)).symm
  · rename_i above
    rw [BitVec.le_def] at above
    exact (Nat.min_eq_right (by omega)).symm

def amountIn (runes : UtxoRunes) (id : RuneId) : Nat :=
  (runes.map (fun rune => if rune.1 = id then rune.2.toNat else 0)).sum

section AmountIn

variable {runes others : UtxoRunes} {id : RuneId}

@[simp] theorem amountIn_nil : amountIn [] id = 0 := rfl

@[simp] theorem amountIn_cons (rune : RuneId × U128) :
    amountIn (rune :: runes) id = (if rune.1 = id then rune.2.toNat else 0) + amountIn runes id := by
  simp only [amountIn, List.map_cons, List.sum_cons]

theorem amountIn_append : amountIn (runes ++ others) id = amountIn runes id + amountIn others id := by
  simp only [amountIn, List.map_append, List.sum_append]

theorem amountIn_perm (perm : runes.Perm others) : amountIn runes id = amountIn others id :=
  (perm.map _).sum_eq

theorem amountIn_of_not_mem (absent : id ∉ runes.map Prod.fst) : amountIn runes id = 0 := by
  induction runes with
  | nil => rfl
  | cons rune runes ih =>
      rw [List.map_cons, List.mem_cons, not_or] at absent
      rw [amountIn_cons, if_neg (fun same => absent.1 same.symm), ih absent.2]

theorem amountIn_of_mem (distinct : (runes.map Prod.fst).Nodup) {amount : U128}
    (member : (id, amount) ∈ runes) : amountIn runes id = amount.toNat := by
  induction runes with
  | nil => cases member
  | cons rune runes ih =>
      rw [List.map_cons, List.nodup_cons] at distinct
      rw [amountIn_cons]
      rcases List.mem_cons.mp member with rfl | later
      · rw [if_pos rfl, amountIn_of_not_mem distinct.1, Nat.add_zero]
      · rw [if_neg, ih distinct.2 later, Nat.zero_add]
        rintro same
        exact distinct.1 (same ▸ List.mem_map_of_mem later)

end AmountIn

namespace RuneBalances

def amount (balances : RuneBalances) (id : RuneId) : Nat := ((balances.lookup id).getD 0).toNat

variable {balances after : RuneBalances} {id : RuneId} {value : U128}

@[simp] theorem amount_empty : (∅ : RuneBalances).amount id = 0 := rfl

theorem amount_insert (other : RuneId) :
    amount (balances.insert id value) other = if other = id then value.toNat else balances.amount other := by
  simp only [amount]
  by_cases same : other = id
  · rw [if_pos same, same, AList.lookup_insert, Option.getD_some]
  · rw [if_neg same, AList.lookup_insert_ne same]

def listed (balances : RuneBalances) : UtxoRunes :=
  balances.entries.map (fun entry => (entry.1, entry.2))

theorem listed_nodup (balances : RuneBalances) : (balances.listed.map Prod.fst).Nodup := by
  have keys := balances.nodupKeys
  rw [List.NodupKeys] at keys
  rw [listed, List.map_map]
  exact keys

theorem mem_listed {rune : RuneId × U128} :
    rune ∈ balances.listed ↔ balances.lookup rune.1 = some rune.2 := by
  have entry := @AList.mem_lookup_iff _ _ _ rune.1 rune.2 balances
  rw [Option.mem_def] at entry
  rw [entry, listed, List.mem_map]
  constructor
  · rintro ⟨⟨id, value⟩, inside, rfl⟩
    exact inside
  · intro inside
    exact ⟨⟨rune.1, rune.2⟩, inside, rfl⟩

theorem amountIn_listed (balances : RuneBalances) (id : RuneId) :
    amountIn balances.listed id = balances.amount id := by
  rw [amount]
  cases found : balances.lookup id with
  | none =>
      apply amountIn_of_not_mem
      intro member
      rcases List.mem_map.mp member with ⟨rune, inside, rfl⟩
      rw [mem_listed.mp inside] at found
      cases found
  | some value => exact amountIn_of_mem balances.listed_nodup (mem_listed.mpr found)

theorem credit_ok (bounded : balances.amount id + value.toNat < 2 ^ 128) :
    ∃ after, (∀ build, balances.credit build id value = .ok after) ∧
      (∀ other, after.amount other =
        balances.amount other + if other = id then value.toNat else 0) ∧
      ∀ other, other ∈ after ↔ other = id ∨ other ∈ balances := by
  refine ⟨balances.insert id ((balances.lookup id).getD 0 + value), ?_, ?_, ?_⟩
  · intro build
    rw [credit, build.add_ok bounded]
  · intro other
    rw [amount_insert]
    by_cases same : other = id
    · rw [if_pos same, if_pos same, same, BitVec.toNat_add]
      exact Nat.mod_eq_of_lt bounded
    · rw [if_neg same, if_neg same, Nat.add_zero]
  · intro other
    exact AList.mem_insert balances

theorem creditAll_ok {runes : UtxoRunes}
    (bounded : ∀ id, balances.amount id + amountIn runes id < 2 ^ 128) :
    ∃ after, (∀ build, balances.creditAll build runes = .ok after) ∧
      (∀ id, after.amount id = balances.amount id + amountIn runes id) ∧
      ∀ id, id ∈ after ↔ id ∈ balances ∨ id ∈ runes.map Prod.fst := by
  induction runes generalizing balances with
  | nil => exact ⟨balances, fun _ => rfl, fun _ => rfl, by simp⟩
  | cons rune runes ih =>
      rcases rune with ⟨id, value⟩
      have first : balances.amount id + value.toNat < 2 ^ 128 := by
        have whole := bounded id
        simp only [amountIn_cons, if_true] at whole
        omega
      rcases credit_ok first with ⟨middle, credited, amounts, keys⟩
      have shared (other : RuneId) : middle.amount other + amountIn runes other =
          balances.amount other + amountIn ((id, value) :: runes) other := by
        rw [amounts, amountIn_cons, Nat.add_assoc]
        simp only [eq_comm]
      rcases ih (fun other => by rw [shared]; exact bounded other) with ⟨after, done, totals, keys'⟩
      refine ⟨after, ?_, ?_, ?_⟩
      · intro build
        simp only [creditAll, credited]
        exact done build
      · intro other
        rw [totals, shared]
      · intro other
        rw [keys', keys, List.map_cons, List.mem_cons]
        tauto

end RuneBalances

def allocatedOf (allocated : List RuneBalances) (id : RuneId) : Nat :=
  (allocated.map (fun balances => RuneBalances.amount balances id)).sum

def Positive (allocated : List RuneBalances) : Prop :=
  ∀ balances ∈ allocated, ∀ id, id ∈ balances → 0 < RuneBalances.amount balances id

section Allocated

variable {allocated : List RuneBalances} {balances after : RuneBalances} {place : Nat} {id : RuneId}
variable {value : U128}

theorem allocatedOf_replicate (count : Nat) (id : RuneId) :
    allocatedOf (List.replicate count ∅) id = 0 := by
  simp [allocatedOf]

theorem positive_replicate (count : Nat) : Positive (List.replicate count ∅) := by
  intro balances member id inside
  rw [List.eq_of_mem_replicate member] at inside
  exact absurd inside (AList.notMem_empty id)

theorem amount_le_allocatedOf (member : balances ∈ allocated) :
    RuneBalances.amount balances id ≤ allocatedOf allocated id :=
  List.single_le_sum (by simp) _ (List.mem_map_of_mem member)

theorem allocatedOf_set (found : allocated[place]? = some balances)
    (amounts : ∀ other, RuneBalances.amount after other =
      RuneBalances.amount balances other + if other = id then value.toNat else 0) (other : RuneId) :
    allocatedOf (allocated.set place after) other =
      allocatedOf allocated other + if other = id then value.toNat else 0 := by
  induction allocated generalizing place with
  | nil => cases found
  | cons first rest ih =>
      cases place with
      | zero =>
          obtain rfl : first = balances := by simpa using found
          simp only [List.set_cons_zero, allocatedOf, List.map_cons, List.sum_cons, amounts]
          omega
      | succ place =>
          have rest : rest[place]? = some balances := by simpa using found
          have later := ih rest
          simp only [allocatedOf] at later ⊢
          simp only [List.set_cons_succ, List.map_cons, List.sum_cons, later]
          omega

theorem Positive.set (positive : Positive allocated) (found : allocated[place]? = some balances)
    (amounts : ∀ other, RuneBalances.amount after other =
      RuneBalances.amount balances other + if other = id then value.toNat else 0)
    (keys : ∀ other, other ∈ after ↔ other = id ∨ other ∈ balances) (some : value ≠ 0) :
    Positive (allocated.set place after) := by
  have some : 0 < value.toNat := by
    by_contra none
    have zero : (0 : U128).toNat = 0 := rfl
    exact some (BitVec.eq_of_toNat_eq (by omega))
  intro other member key inside
  rcases List.mem_or_eq_of_mem_set member with old | rfl
  · exact positive other old key inside
  · rw [amounts]
    rcases (keys key).mp inside with rfl | before
    · rw [if_pos rfl]
      omega
    · have held := positive balances (List.mem_of_getElem? found) key before
      omega

end Allocated

/-- What is allocated and what is left add up to the totals. -/
structure RuneLedger.Balanced (total : RuneId → Nat) (count : Nat) (ledger : RuneLedger) : Prop where
  count : ledger.allocated.length = count
  sum : ∀ id, RuneBalances.amount ledger.unallocated id + allocatedOf ledger.allocated id = total id
  positive : Positive ledger.allocated

/-- The balances of a ledger are the shares. -/
structure RuneLedger.Agrees (shares : RuneShares) (ledger : RuneLedger) : Prop where
  rest : ∀ id, RuneBalances.amount ledger.unallocated id = shares.rest id
  given : ∀ place balances, ledger.allocated[place]? = some balances →
    ∀ id, RuneBalances.amount balances id = shares.given place id

/-- The rest of the shares is with one output. -/
def RuneLedger.GivesRest (ledger : RuneLedger) (receiver : Option Nat)
    (allocated : List RuneBalances) : Prop :=
  ∀ shares : RuneShares, ledger.Agrees shares → ∀ place balances, allocated[place]? = some balances →
    ∀ id, RuneBalances.amount balances id =
      shares.given place id + if receiver = some place then shares.rest id else 0

namespace RuneLedger

variable {total : RuneId → Nat} {count : Nat} {ledger : RuneLedger} {id : RuneId} {amount : U128}

theorem agrees_start {balances : RuneBalances}
    (sum : ∀ id, RuneBalances.amount balances id = total id) :
    (⟨balances, List.replicate count ∅⟩ : RuneLedger).Agrees (.start total) := by
  refine ⟨sum, ?_⟩
  intro place empty found id
  rw [List.eq_of_mem_replicate (List.mem_of_getElem? found), RuneBalances.amount_empty]
  rfl

variable {shares : RuneShares}

theorem Agrees.give_nothing (agrees : ledger.Agrees shares) (output : Nat) :
    ledger.Agrees (shares.give id 0 output) := by
  refine ⟨?_, ?_⟩
  · intro other
    rw [agrees.rest]
    simp only [RuneShares.give, Nat.sub_zero]
    split
    · rename_i same
      rw [same]
    · rfl
  · intro place balances found other
    rw [agrees.given place balances found]
    simp only [RuneShares.give, ite_self, Nat.add_zero]

theorem Agrees.giveEach_nothing (agrees : ledger.Agrees shares) (place : Nat) (outputs : List Nat) :
    ledger.Agrees (shares.giveEach id 0 0 place outputs) := by
  induction outputs generalizing place shares with
  | nil => exact agrees
  | cons output outputs ih => exact ih (agrees.give_nothing output) (place + 1)

theorem Agrees.giveUpTo_nothing (agrees : ledger.Agrees shares) (nothing : shares.rest id = 0)
    (amount : Nat) (outputs : List Nat) :
    ledger.Agrees (shares.giveUpTo id amount outputs) := by
  induction outputs generalizing shares with
  | nil => exact agrees
  | cons output outputs ih =>
      rw [RuneShares.giveUpTo, nothing, Nat.min_zero]
      apply ih (agrees.give_nothing output)
      simp only [RuneShares.give, if_true, nothing]

theorem Agrees.give (agrees : ledger.Agrees shares) {output : Nat} {balance : U128}
    {balances after : RuneBalances} (found : ledger.allocated[output]? = some balances)
    (left : balance.toNat = RuneBalances.amount ledger.unallocated id - amount.toNat)
    (amounts : ∀ other, RuneBalances.amount after other =
      RuneBalances.amount balances other + if other = id then amount.toNat else 0) :
    (⟨ledger.unallocated.insert id balance, ledger.allocated.set output after⟩ : RuneLedger).Agrees
      (shares.give id amount.toNat output) := by
  refine ⟨?_, ?_⟩
  · intro other
    simp only [RuneBalances.amount_insert, RuneShares.give, left, agrees.rest]
  · intro place other held key
    have inside := (List.getElem?_eq_some_iff.mp found).1
    by_cases same : place = output
    · subst same
      obtain rfl : after = other := by simpa [List.getElem?_set, inside] using held
      simp only [amounts, agrees.given place balances found, RuneShares.give, true_and]
    · rw [List.getElem?_set_ne (Ne.symm same)] at held
      simp only [agrees.given place other held, RuneShares.give, same, false_and, if_false,
        Nat.add_zero]

theorem allocate_ok {output : Nat} (balanced : ledger.Balanced total count)
    (bounded : ∀ id, total id < 2 ^ 128) (place : output < count)
    (enough : amount.toNat ≤ RuneBalances.amount ledger.unallocated id) :
    ∃ after, (∀ build, ledger.allocate build id amount output = .ok after) ∧
      after.Balanced total count ∧
      RuneBalances.amount after.unallocated id + amount.toNat =
        RuneBalances.amount ledger.unallocated id ∧
      ∀ shares, ledger.Agrees shares → after.Agrees (shares.give id amount.toNat output) := by
  by_cases none : amount = 0
  · subst none
    exact ⟨ledger, fun _ => if_pos rfl, balanced, rfl,
      fun shares agrees => agrees.give_nothing output⟩
  · have inside : output < ledger.allocated.length := by rw [balanced.count]; exact place
    have found := List.getElem?_eq_getElem inside
    have room : RuneBalances.amount ledger.allocated[output] id + amount.toNat < 2 ^ 128 := by
      have held := @amount_le_allocatedOf _ _ id (List.getElem_mem inside)
      have whole := balanced.sum id
      have bound := bounded id
      omega
    rcases RuneBalances.credit_ok room with ⟨after, credited, amounts, keys⟩
    have left : ((ledger.unallocated.lookup id).getD 0 - amount).toNat =
        RuneBalances.amount ledger.unallocated id - amount.toNat :=
      BitVec.toNat_sub_of_le (BitVec.le_def.mpr enough)
    refine ⟨_, ?_, ⟨?_, ?_, ?_⟩, ?_, fun shares agrees => agrees.give found left amounts⟩
    · intro build
      rw [allocate, if_neg none, build.sub_ok enough]
      simp only [found, credited]
    · rw [List.length_set]
      exact balanced.count
    · intro other
      rw [allocatedOf_set found amounts, RuneBalances.amount_insert]
      have whole := balanced.sum other
      by_cases same : other = id
      · subst same
        rw [if_pos rfl, if_pos rfl, left]
        omega
      · rw [if_neg same, if_neg same]
        omega
    · exact balanced.positive.set found amounts keys none
    · rw [RuneBalances.amount_insert, if_pos rfl, left]
      omega

theorem divide_ok {outputs : List Nat} {place remainder : Nat}
    (balanced : ledger.Balanced total count) (bounded : ∀ id, total id < 2 ^ 128)
    (places : ∀ output ∈ outputs, output < count)
    (enough : outputs.length * amount.toNat + min (remainder - place) outputs.length ≤
      RuneBalances.amount ledger.unallocated id) :
    ∃ after, (∀ build, ledger.divide build id amount remainder place outputs = .ok after) ∧
      after.Balanced total count ∧ ∀ shares, ledger.Agrees shares →
        after.Agrees (shares.giveEach id amount.toNat remainder place outputs) := by
  induction outputs generalizing ledger place with
  | nil => exact ⟨ledger, fun _ => rfl, balanced, fun _ agrees => agrees⟩
  | cons output outputs ih =>
      rw [List.length_cons, Nat.succ_mul] at enough
      have whole := balanced.sum id
      have bound := bounded id
      have one : (1 : U128).toNat = 1 := rfl
      -- the first `remainder` outputs get one more
      have share : ∃ share : U128, (∀ build : Build,
          (if place < remainder then build.add amount 1 else .ok amount) = .ok share) ∧
            share.toNat = amount.toNat + if place < remainder then 1 else 0 := by
        by_cases early : place < remainder
        · refine ⟨amount + 1, ?_, ?_⟩
          · intro build
            rw [if_pos early]
            exact build.add_ok (by omega)
          · rw [if_pos early, BitVec.toNat_add, one, Nat.mod_eq_of_lt (by omega)]
        · refine ⟨amount, ?_, ?_⟩
          · intro build
            rw [if_neg early]
          · rw [if_neg early, Nat.add_zero]
      rcases share with ⟨share, computed, size⟩
      have first : share.toNat ≤ RuneBalances.amount ledger.unallocated id := by
        split at size
        · omega
        · omega
      rcases allocate_ok balanced bounded (places output List.mem_cons_self) first with
        ⟨middle, allocated, kept, left, given⟩
      have rest : outputs.length * amount.toNat + min (remainder - (place + 1)) outputs.length ≤
          RuneBalances.amount middle.unallocated id := by
        split at size
        · omega
        · omega
      rcases ih kept (fun output member => places output (List.mem_cons_of_mem _ member)) rest with
        ⟨after, divided, done, later⟩
      refine ⟨after, ?_, done, ?_⟩
      · intro build
        simp only [divide, computed, allocated]
        exact divided build
      · intro shares agrees
        rw [RuneShares.giveEach, ← size]
        exact later _ (given shares agrees)

theorem distribute_ok {outputs : List Nat} (balanced : ledger.Balanced total count)
    (bounded : ∀ id, total id < 2 ^ 128) (places : ∀ output ∈ outputs, output < count) :
    ∃ after, (∀ build, ledger.distribute build id amount outputs = .ok after) ∧
      after.Balanced total count ∧
      ∀ shares, ledger.Agrees shares → after.Agrees (shares.giveUpTo id amount.toNat outputs) := by
  induction outputs generalizing ledger with
  | nil => exact ⟨ledger, fun _ => rfl, balanced, fun _ agrees => agrees⟩
  | cons output outputs ih =>
      rcases allocate_ok balanced bounded (places output List.mem_cons_self)
        (smaller_le amount ((ledger.unallocated.lookup id).getD 0)).2 with
        ⟨middle, allocated, kept, _, given⟩
      rcases ih kept (fun output member => places output (List.mem_cons_of_mem _ member)) with
        ⟨after, distributed, done, later⟩
      refine ⟨after, ?_, done, ?_⟩
      · intro build
        simp only [distribute, allocated]
        exact distributed build
      · intro shares agrees
        have share := toNat_smaller amount ((ledger.unallocated.lookup id).getD 0)
        rw [RuneShares.giveUpTo, ← agrees.rest, RuneBalances.amount, ← share]
        exact later _ (given shares agrees)

theorem mem_destinations {outputs : List TxOut} {place : Nat} :
    place ∈ destinations outputs ↔
      ∃ output, outputs[place]? = some output ∧ isOpReturn output.scriptPubkey = false := by
  simp only [destinations, List.mem_filterMap, Prod.exists, List.mem_zipIdx_iff_getElem?]
  constructor
  · rintro ⟨output, index, found, kept⟩
    split at kept
    · cases kept
    · rename_i plain
      obtain rfl := Option.some.inj kept
      exact ⟨output, found, Bool.eq_false_iff.mpr plain⟩
  · rintro ⟨output, found, plain⟩
    refine ⟨output, place, found, ?_⟩
    rw [plain]
    rfl

theorem destinations_lt {outputs : List TxOut} {place : Nat} (member : place ∈ destinations outputs) :
    place < outputs.length := by
  rcases mem_destinations.mp member with ⟨output, found, _⟩
  exact (List.getElem?_eq_some_iff.mp found).1

theorem destinations_eq (outputs : List TxOut) : destinations outputs =
    (outputs.zipIdx.filter (fun item => !isOpReturn item.1.scriptPubkey)).map Prod.snd := by
  rw [destinations]
  induction outputs.zipIdx with
  | nil => rfl
  | cons item items ih =>
      rw [List.filterMap_cons, List.filter_cons, ih]
      cases isOpReturn item.1.scriptPubkey with
      | true => rfl
      | false => rfl

theorem nodup_destinations (outputs : List TxOut) : (destinations outputs).Nodup := by
  rw [destinations_eq]
  exact (List.nodup_zipIdx_map_snd outputs).sublist (List.filter_sublist.map Prod.snd)

theorem length_destinations (outputs : List TxOut) : (destinations outputs).length =
    outputs.countP (fun output => !isOpReturn output.scriptPubkey) := by
  rw [destinations_eq, List.length_map, ← List.countP_eq_length_filter]
  have places : outputs = outputs.zipIdx.map Prod.fst := (List.zipIdx_map_fst 0 outputs).symm
  conv_rhs => rw [places]
  rw [List.countP_map]
  rfl

theorem length_destinations_le (outputs : List TxOut) :
    (destinations outputs).length ≤ outputs.length := by
  apply le_trans (List.length_filterMap_le _ _)
  rw [List.length_zipIdx]

theorem applyEdict_ok {outputs : List TxOut} {etched : Option RuneId} {edict : Edict}
    (balanced : ledger.Balanced total outputs.length) (bounded : ∀ id, total id < 2 ^ 128)
    (place : edict.output.toNat ≤ outputs.length) :
    ∃ after, (∀ build, ledger.applyEdict build outputs etched edict = .ok after) ∧
      after.Balanced total outputs.length ∧ ∀ shares, ledger.Agrees shares →
        after.Agrees (shares.applyEdict outputs etched edict) := by
  have inside : ¬ outputs.length < edict.output.toNat := by omega
  simp only [RuneShares.applyEdict, applyEdict, if_neg inside]
  cases (if edict.id = RuneId.zero then etched else some edict.id) with
  | none => exact ⟨ledger, fun _ => rfl, balanced, fun _ agrees => agrees⟩
  | some id =>
      cases found : ledger.unallocated.lookup id with
      | none =>
          refine ⟨ledger, fun _ => by simp only [found], balanced, ?_⟩
          intro shares agrees
          have nothing : shares.rest id = 0 := by
            rw [← agrees.rest, RuneBalances.amount, found]
            rfl
          simp only [nothing, Nat.min_zero, Nat.zero_div, Nat.zero_mod, ite_self]
          split
          · split
            · exact agrees.giveEach_nothing 0 _
            · exact agrees.giveUpTo_nothing nothing _ _
          · exact agrees.give_nothing _
      | some balance =>
          have held : RuneBalances.amount ledger.unallocated id = balance.toNat := by
            rw [RuneBalances.amount, found, Option.getD_some]
          simp only [found]
          by_cases all : edict.output.toNat = outputs.length
          · simp only [if_pos all]
            by_cases zero : edict.amount = 0
            · simp only [if_pos zero]
              by_cases empty : (destinations outputs).isEmpty
              · simp only [List.isEmpty_iff.mp empty]
                exact ⟨ledger, fun _ => rfl, balanced, fun _ agrees => agrees⟩
              · simp only [if_neg empty]
                have some : 0 < (destinations outputs).length :=
                  List.length_pos_iff.mpr (by simpa using empty)
                have size : (BitVec.ofNat 128 (destinations outputs).length).toNat =
                    (destinations outputs).length := by
                  have small := edict.output.isLt
                  have few := length_destinations_le outputs
                  rw [BitVec.toNat_ofNat, Nat.mod_eq_of_lt (by omega)]
                have enough : (destinations outputs).length *
                    (balance / BitVec.ofNat 128 (destinations outputs).length).toNat +
                    min ((balance % BitVec.ofNat 128 (destinations outputs).length).toNat - 0)
                      (destinations outputs).length ≤ RuneBalances.amount ledger.unallocated id := by
                  rw [held, BitVec.toNat_udiv, BitVec.toNat_umod, size, Nat.sub_zero,
                    Nat.min_eq_left (Nat.le_of_lt (Nat.mod_lt _ some))]
                  exact le_of_eq (Nat.div_add_mod _ _)
                rcases divide_ok balanced bounded (fun _ => destinations_lt) enough with
                  ⟨after, divided, kept, given⟩
                refine ⟨after, divided, kept, ?_⟩
                intro shares agrees
                rw [← agrees.rest, held, ← size, ← BitVec.toNat_udiv, ← BitVec.toNat_umod]
                exact given shares agrees
            · simp only [if_neg zero]
              exact distribute_ok balanced bounded (fun _ => destinations_lt)
          · simp only [if_neg all]
            have enough : (if edict.amount = 0 then balance else smaller edict.amount balance).toNat ≤
                RuneBalances.amount ledger.unallocated id := by
              rw [held]
              split
              · exact le_rfl
              · exact (smaller_le _ _).2
            have inside : edict.output.toNat < outputs.length := by omega
            rcases allocate_ok balanced bounded inside enough with ⟨after, done, kept, _, given⟩
            refine ⟨after, done, kept, ?_⟩
            intro shares agrees
            have share : (if edict.amount = 0 then balance else smaller edict.amount balance).toNat =
                if edict.amount = 0 then shares.rest id
                else min edict.amount.toNat (shares.rest id) := by
              rw [← agrees.rest, held, apply_ite BitVec.toNat, toNat_smaller]
            rw [← share]
            exact given shares agrees

theorem applyEdicts_ok {outputs : List TxOut} {etched : Option RuneId} {edicts : List Edict}
    (balanced : ledger.Balanced total outputs.length) (bounded : ∀ id, total id < 2 ^ 128)
    (places : ∀ edict ∈ edicts, edict.output.toNat ≤ outputs.length) :
    ∃ after, (∀ build, ledger.applyEdicts build outputs etched edicts = .ok after) ∧
      after.Balanced total outputs.length ∧ ∀ shares, ledger.Agrees shares →
        after.Agrees (shares.applyEdicts outputs etched edicts) := by
  induction edicts generalizing ledger with
  | nil => exact ⟨ledger, fun _ => rfl, balanced, fun _ agrees => agrees⟩
  | cons edict edicts ih =>
      rcases @applyEdict_ok _ ledger outputs etched edict balanced bounded
        (places edict List.mem_cons_self) with ⟨middle, applied, kept, given⟩
      rcases ih kept (fun edict member => places edict (List.mem_cons_of_mem _ member)) with
        ⟨after, rest, done, later⟩
      refine ⟨after, ?_, done, fun shares agrees => later _ (given shares agrees)⟩
      intro build
      simp only [applyEdicts, applied]
      exact rest build

theorem assignLeftovers_ok {vout : Nat} {runes : UtxoRunes} {allocated : List RuneBalances}
    (place : vout < allocated.length) (positive : Positive allocated)
    (bounded : ∀ id, allocatedOf allocated id + amountIn runes id < 2 ^ 128) :
    ∃ after, (∀ build, assignLeftovers build vout runes allocated = .ok after) ∧
      after.length = allocated.length ∧ Positive after ∧
      (∀ id, allocatedOf after id = allocatedOf allocated id + amountIn runes id) ∧
      ∀ given : Nat → RuneId → Nat, (∀ place balances, allocated[place]? = some balances →
        ∀ id, RuneBalances.amount balances id = given place id) →
          ∀ place balances, after[place]? = some balances → ∀ id,
            RuneBalances.amount balances id =
              given place id + if vout = place then amountIn runes id else 0 := by
  induction runes generalizing allocated with
  | nil =>
      refine ⟨allocated, fun _ => rfl, rfl, positive, fun _ => rfl, ?_⟩
      intro given before place balances found id
      simp only [amountIn_nil, ite_self, Nat.add_zero]
      exact before place balances found id
  | cons rune runes ih =>
      rcases rune with ⟨id, balance⟩
      simp only [assignLeftovers]
      by_cases none : balance = 0
      · simp only [if_pos none]
        have nothing (other : RuneId) : amountIn ((id, balance) :: runes) other = amountIn runes other := by
          have zero : (0 : U128).toNat = 0 := rfl
          rw [amountIn_cons, none, zero, ite_self, Nat.zero_add]
        rcases ih place positive (fun other => by rw [← nothing]; exact bounded other) with
          ⟨after, done, length, kept, sums, shares⟩
        refine ⟨after, done, length, kept, fun other => by rw [sums, nothing], ?_⟩
        intro given before place balances found id
        rw [shares given before place balances found id, nothing]
      · have found := List.getElem?_eq_getElem place
        have room : RuneBalances.amount allocated[vout] id + balance.toNat < 2 ^ 128 := by
          have held := @amount_le_allocatedOf _ _ id (List.getElem_mem place)
          have whole := bounded id
          simp only [amountIn_cons, if_true] at whole
          omega
        rcases RuneBalances.credit_ok room with ⟨credited, success, amounts, keys⟩
        simp only [if_neg none, found, success]
        have shared (other : RuneId) : allocatedOf (allocated.set vout credited) other +
            amountIn runes other = allocatedOf allocated other + amountIn ((id, balance) :: runes) other := by
          rw [allocatedOf_set found amounts, amountIn_cons, Nat.add_assoc]
          simp only [eq_comm]
        have inside : vout < (allocated.set vout credited).length := by
          rw [List.length_set]
          exact place
        rcases ih inside (positive.set found amounts keys none)
          (fun other => by rw [shared]; exact bounded other) with
          ⟨after, done, length, kept, sums, shares⟩
        refine ⟨after, done, ?_, kept, fun other => by rw [sums, shared], ?_⟩
        · rw [length, List.length_set]
        · intro given before spot balances held other
          have middle (spot : Nat) (balances : RuneBalances)
              (held : (allocated.set vout credited)[spot]? = some balances) (other : RuneId) :
              RuneBalances.amount balances other = given spot other +
                if vout = spot ∧ other = id then balance.toNat else 0 := by
            by_cases same : vout = spot
            · subst same
              obtain rfl : credited = balances := by simpa [List.getElem?_set, place] using held
              rw [amounts, before _ _ found]
              simp only [true_and]
            · rw [List.getElem?_set_ne same] at held
              simp only [before spot balances held, same, false_and, if_false, Nat.add_zero]
          rw [shares _ middle spot balances held other, amountIn_cons]
          by_cases same : vout = spot
          · simp only [same, true_and, if_true, Nat.add_assoc, @eq_comm _ other]
          · simp only [same, false_and, if_false, Nat.add_zero]

end RuneLedger

end Symphony
