import Symphony.Sync.RuneFlowSpec

/-! A transaction neither makes nor loses runes. -/

namespace Symphony

open Encdec

/-- What the decipherer guarantees for a transaction with these outputs. -/
def Artifact.Guaranteed (outputs : List TxOut) : Artifact → Prop
  | .runestone stone => (∀ edict ∈ stone.edicts, edict.output.toNat ≤ outputs.length) ∧
      ∀ pointer ∈ stone.pointer, pointer.toNat < outputs.length
  | .cenotaph _ => True

def premineOf (artifact : Option Artifact) (etched : Option RuneId) : UtxoRunes :=
  match artifact, etched with
  | some (.runestone stone), some id => [(id, (stone.etching.bind Etching.premine).getD 0)]
  | _, _ => []

def receivesRest (outputs : List TxOut) : Option Artifact → Bool
  | some (.cenotaph _) => false
  | some (.runestone stone) => stone.pointer.isSome || !(RuneLedger.destinations outputs).isEmpty
  | none => !(RuneLedger.destinations outputs).isEmpty

namespace RunesIndexer

open RuneLedger

variable {outputs : List TxOut} {etched : Option RuneId} {balances : RuneBalances}
variable {total : RuneId → Nat}

theorem start_balanced (sum : ∀ id, RuneBalances.amount balances id = total id) :
    (⟨balances, List.replicate outputs.length ∅⟩ : RuneLedger).Balanced total outputs.length where
  count := List.length_replicate
  sum id := by rw [allocatedOf_replicate, sum, Nat.add_zero]
  positive := positive_replicate _

theorem runEdicts_ok {artifact : Artifact} (guaranteed : artifact.Guaranteed outputs)
    (etches : etched.isSome → artifact.etching.isSome) (bounded : ∀ id, total id < 2 ^ 128)
    (sum : ∀ id, RuneBalances.amount balances id + amountIn (premineOf (some artifact) etched) id =
      total id) :
    ∃ ledger, (∀ build, runEdicts build outputs artifact etched balances = .ok ledger) ∧
      ledger.Balanced total outputs.length ∧ ledger.Agrees ((RuneShares.start total).applyEdicts
        outputs etched (RuneShares.edictsOf (some artifact))) := by
  cases artifact with
  | cenotaph stone =>
      have whole (id : RuneId) : RuneBalances.amount balances id = total id := by
        rw [← sum id]
        rfl
      exact ⟨⟨balances, List.replicate outputs.length ∅⟩, fun _ => rfl, start_balanced whole,
        agrees_start whole⟩
  | runestone stone =>
      cases etched with
      | none =>
          have whole (id : RuneId) : RuneBalances.amount balances id = total id := by
            rw [← sum id]
            rfl
          rcases @applyEdicts_ok _ _ outputs none _ (start_balanced whole) bounded guaranteed.1
            with ⟨ledger, applied, balanced, given⟩
          exact ⟨ledger, applied, balanced, given _ (agrees_start whole)⟩
      | some id =>
          have etching := etches rfl
          simp only [Artifact.etching, Option.isSome_map] at etching
          obtain ⟨etching, found⟩ := Option.isSome_iff_exists.mp etching
          have room : RuneBalances.amount balances id + (etching.premine.getD 0).toNat < 2 ^ 128 := by
            have whole := sum id
            have bound := bounded id
            simp only [premineOf, found, Option.bind_some, amountIn_cons, amountIn_nil, if_true] at whole
            omega
          rcases RuneBalances.credit_ok room with ⟨after, credited, amounts, _⟩
          have totals (other : RuneId) : RuneBalances.amount after other = total other := by
            rw [amounts, ← sum other]
            simp only [premineOf, found, Option.bind_some, amountIn_cons, amountIn_nil, Nat.add_zero,
              @eq_comm _ other]
          rcases @applyEdicts_ok _ _ outputs (some id) _ (start_balanced totals) bounded
            guaranteed.1 with ⟨ledger, applied, balanced, given⟩
          refine ⟨ledger, ?_, balanced, given _ (agrees_start totals)⟩
          intro build
          simp only [runEdicts, found, credited]
          exact applied build

theorem assignRest_ok {artifact : Option Artifact} {ledger : RuneLedger}
    (order : MapOrder RuneId U128) (guaranteed : ∀ stone ∈ artifact, stone.Guaranteed outputs)
    (balanced : ledger.Balanced total outputs.length) (bounded : ∀ id, total id < 2 ^ 128) :
    ∃ allocated, (∀ build, assignRest build order outputs artifact ledger = .ok allocated) ∧
      allocated.length = outputs.length ∧ Positive allocated ∧
      (∀ id, allocatedOf allocated id = allocatedOf ledger.allocated id +
        if receivesRest outputs artifact then RuneBalances.amount ledger.unallocated id else 0) ∧
      ledger.GivesRest (RuneShares.restPlace outputs artifact) allocated := by
  have kept : ∃ allocated,
      (Build → (.ok ledger.allocated : Except Error (List RuneBalances)) = .ok allocated) ∧
      allocated.length = outputs.length ∧ Positive allocated ∧
      (∀ id, allocatedOf allocated id = allocatedOf ledger.allocated id + 0) ∧
      ledger.GivesRest none allocated := by
    refine ⟨ledger.allocated, fun _ => rfl, balanced.count, balanced.positive, fun _ => rfl, ?_⟩
    intro shares agrees place balances found id
    rw [if_neg (by simp), Nat.add_zero]
    exact agrees.given place balances found id
  have given {vout : Nat} (place : vout < outputs.length) : ∃ allocated,
      (∀ build, assignLeftovers build vout (order.iter ledger.unallocated) ledger.allocated =
        .ok allocated) ∧
      allocated.length = outputs.length ∧ Positive allocated ∧
      (∀ id, allocatedOf allocated id = allocatedOf ledger.allocated id +
        RuneBalances.amount ledger.unallocated id) ∧
      ledger.GivesRest (some vout) allocated := by
    have listed (id : RuneId) : amountIn (order.iter ledger.unallocated) id =
        RuneBalances.amount ledger.unallocated id := by
      rw [amountIn_perm (order.perm ledger.unallocated)]
      exact RuneBalances.amountIn_listed ledger.unallocated id
    have inside : vout < ledger.allocated.length := by
      rw [balanced.count]
      exact place
    have room (id : RuneId) : allocatedOf ledger.allocated id +
        amountIn (order.iter ledger.unallocated) id < 2 ^ 128 := by
      rw [listed, Nat.add_comm, balanced.sum]
      exact bounded id
    rcases assignLeftovers_ok inside balanced.positive room with
      ⟨allocated, done, length, positive, sums, shares⟩
    refine ⟨allocated, done, by rw [length, balanced.count], positive, ?_, ?_⟩
    · intro id
      rw [sums, listed]
    · intro before agrees spot balances found id
      rw [shares before.given agrees.given spot balances found id, listed, agrees.rest]
      simp only [Option.some.injEq]
  have rest {receives : Bool} (same : receives = !(destinations outputs).isEmpty) :
      ∃ allocated, (∀ build, assignRest build order outputs none ledger = .ok allocated) ∧
      allocated.length = outputs.length ∧ Positive allocated ∧
      (∀ id, allocatedOf allocated id = allocatedOf ledger.allocated id +
        if receives then RuneBalances.amount ledger.unallocated id else 0) ∧
      ledger.GivesRest (destinations outputs).head? allocated := by
    cases listed : destinations outputs with
    | nil =>
        simp only [same, assignRest, leftoverOutput, listed]
        exact kept
    | cons vout rest =>
        simp only [same, assignRest, leftoverOutput, listed]
        exact given (destinations_lt (listed ▸ List.mem_cons_self))
  cases artifact with
  | none => exact rest rfl
  | some artifact =>
      cases artifact with
      | cenotaph stone => exact kept
      | runestone stone =>
          cases pointed : stone.pointer with
          | none =>
              have unpointed (build : Build) :
                  assignRest build order outputs (some (.runestone stone)) ledger =
                    assignRest build order outputs none ledger := by simp only [assignRest, pointed]
              simp only [unpointed]
              simp only [receivesRest, RuneShares.restPlace, pointed]
              exact rest rfl
          | some pointer =>
              have place := (guaranteed _ rfl).2 pointer pointed
              simp only [assignRest, pointed, receivesRest, RuneShares.restPlace, leftoverOutput,
                if_pos place]
              exact given place

def edictLedger (build : Build) (outputs : List TxOut) (artifact : Option Artifact)
    (etched : Option RuneId) (balances : RuneBalances) : Except Error RuneLedger :=
  match artifact with
  | none => .ok ⟨balances, List.replicate outputs.length ∅⟩
  | some artifact => runEdicts build outputs artifact etched balances

theorem edictLedger_ok {artifact : Option Artifact}
    (guaranteed : ∀ stone ∈ artifact, stone.Guaranteed outputs)
    (etches : ∀ stone ∈ artifact, etched.isSome → stone.etching.isSome)
    (bounded : ∀ id, total id < 2 ^ 128)
    (sum : ∀ id, RuneBalances.amount balances id + amountIn (premineOf artifact etched) id = total id) :
    ∃ ledger, (∀ build, edictLedger build outputs artifact etched balances = .ok ledger) ∧
      ledger.Balanced total outputs.length ∧ ledger.Agrees ((RuneShares.start total).applyEdicts
        outputs etched (RuneShares.edictsOf artifact)) := by
  cases artifact with
  | none =>
      have whole (id : RuneId) : RuneBalances.amount balances id = total id := by
        rw [← sum id]
        rfl
      exact ⟨_, fun _ => rfl, start_balanced whole, agrees_start whole⟩
  | some artifact =>
      exact runEdicts_ok (guaranteed artifact rfl) (etches artifact rfl) bounded sum

end RunesIndexer

open RunesIndexer

/-- In every build, with or without overflow checks, whatever the inputs hold, the mint and the
etching give and the edicts say: nothing overflows or underflows, the edict loop keeps the total of
every rune, the outputs get all of it unless there is no output for the rest or the artifact is a
cenotaph, and only runes of the inputs, the mint and the etching are allocated. -/
theorem rune_conservation (build : Build) (order : MapOrder RuneId U128) (outputs : List TxOut)
    (artifact : Option Artifact) (inputs : List UtxoRunes) (minted : Option (RuneId × U128))
    (etched : Option RuneId) (guaranteed : ∀ stone ∈ artifact, stone.Guaranteed outputs)
    (etches : ∀ stone ∈ artifact, etched.isSome → stone.etching.isSome)
    (bounded : ∀ id, amountIn inputs.flatten id + amountIn minted.toList id +
      amountIn (premineOf artifact etched) id < 2 ^ 128) :
    let total := fun id => amountIn inputs.flatten id + amountIn minted.toList id +
      amountIn (premineOf artifact etched) id
    ∃ balances, (∅ : RuneBalances).creditAll build (inputs.flatten ++ minted.toList) = .ok balances ∧
      (∀ stone front, artifact = some (.runestone stone) → front <+: stone.edicts →
        ∃ ledger, runEdicts build outputs (.runestone { stone with edicts := front }) etched balances =
            .ok ledger ∧
          ∀ id, RuneBalances.amount ledger.unallocated id + allocatedOf ledger.allocated id =
            total id) ∧
      ∃ ledger allocated, edictLedger build outputs artifact etched balances = .ok ledger ∧
        assignRest build order outputs artifact ledger = .ok allocated ∧
        allocated.length = outputs.length ∧
        (∀ id, allocatedOf allocated id ≤ total id) ∧
        (receivesRest outputs artifact → ∀ id, allocatedOf allocated id = total id) ∧
        (∀ stone, artifact = some (.cenotaph stone) → ∀ id, allocatedOf allocated id = 0) ∧
        ∀ held ∈ allocated, ∀ id, id ∈ held →
          id ∈ (inputs.flatten ++ minted.toList ++ premineOf artifact etched).map Prod.fst := by
  intro total
  have room (id : RuneId) : RuneBalances.amount ∅ id +
      amountIn (inputs.flatten ++ minted.toList) id < 2 ^ 128 := by
    have bound := bounded id
    rw [RuneBalances.amount_empty, amountIn_append]
    omega
  rcases RuneBalances.creditAll_ok room with ⟨balances, credited, amounts, _⟩
  have sum (id : RuneId) : RuneBalances.amount balances id +
      amountIn (premineOf artifact etched) id = total id := by
    rw [amounts, RuneBalances.amount_empty, Nat.zero_add, amountIn_append]
  refine ⟨balances, credited build, ?_, ?_⟩
  · rintro stone front rfl ⟨rest, whole⟩
    have fits := guaranteed _ rfl
    have early : Artifact.Guaranteed outputs (.runestone { stone with edicts := front }) :=
      ⟨fun edict member => fits.1 edict (whole ▸ List.mem_append_left rest member), fits.2⟩
    have premine : premineOf (some (.runestone { stone with edicts := front })) etched =
        premineOf (some (.runestone stone)) etched := by
      cases etched with
      | none => rfl
      | some id => rfl
    rw [← premine] at sum
    have etching : etched.isSome →
        (Artifact.runestone { stone with edicts := front }).etching.isSome :=
      etches (.runestone stone) rfl
    rcases runEdicts_ok early etching bounded sum with ⟨ledger, ran, balanced, _⟩
    exact ⟨ledger, ran build, balanced.sum⟩
  · rcases edictLedger_ok guaranteed etches bounded sum with ⟨ledger, ran, balanced, _⟩
    rcases assignRest_ok order guaranteed balanced bounded with
      ⟨allocated, assigned, length, positive, sums, _⟩
    have least (id : RuneId) : allocatedOf allocated id ≤ total id := by
      have whole : RuneBalances.amount ledger.unallocated id + allocatedOf ledger.allocated id =
        total id := balanced.sum id
      rw [sums]
      split
      · omega
      · omega
    refine ⟨ledger, allocated, ran build, assigned build, length, least, ?_, ?_, ?_⟩
    · intro receives id
      rw [sums, if_pos receives, Nat.add_comm, balanced.sum]
    · rintro stone rfl id
      cases ran build
      cases assigned build
      exact allocatedOf_replicate _ id
    · intro held member id inside
      by_contra outside
      have nothing := amountIn_of_not_mem outside
      rw [amountIn_append, amountIn_append] at nothing
      have some := positive held member id inside
      have part := @amount_le_allocatedOf allocated held id member
      have bound : allocatedOf allocated id ≤ _ := least id
      simp only [total] at bound
      omega

def MapOrder.entries (Key Value : Type) : MapOrder Key Value :=
  ⟨fun map => map.entries.map (fun entry => (entry.1, entry.2)), fun _ => .refl _⟩

def splitStone : Runestone where
  edicts := [⟨RuneId.zero, 3, 1⟩, ⟨RuneId.zero, 0, 3⟩, ⟨⟨5, 1⟩, 2, 3⟩]
  etching := some ⟨none, some 7, none, none, none, none⟩
  mint := none
  pointer := some 2

theorem rune_conservation_split :
    let outputs : List TxOut := [⟨0, [opReturn]⟩, ⟨1, [81]⟩, ⟨1, [82]⟩]
    ∃ balances, (∅ : RuneBalances).creditAll ⟨true⟩ [(⟨5, 1⟩, 10)] = .ok balances ∧
      ∃ ledger allocated,
        edictLedger ⟨true⟩ outputs (some (.runestone splitStone)) (some ⟨9, 4⟩) balances = .ok ledger ∧
        assignRest ⟨true⟩ (.entries _ _) outputs (some (.runestone splitStone)) ledger = .ok allocated ∧
        ∀ id, allocatedOf allocated id = amountIn [(⟨5, 1⟩, 10)] id +
          amountIn (premineOf (some (.runestone splitStone)) (some ⟨9, 4⟩)) id := by
  intro outputs
  have bounded (id : RuneId) : amountIn ([[(⟨5, 1⟩, 10)]] : List UtxoRunes).flatten id +
      amountIn (none : Option (RuneId × U128)).toList id +
        amountIn (premineOf (some (.runestone splitStone)) (some ⟨9, 4⟩)) id < 2 ^ 128 := by
    have single (rune : RuneId × U128) : amountIn [rune] id ≤ rune.2.toNat := by
      rw [amountIn_cons, amountIn_nil]
      split
      · exact le_rfl
      · exact Nat.zero_le _
    have first := single (⟨5, 1⟩, 10)
    have second := single (⟨9, 4⟩, 7)
    have size (bound : Nat) (below : amountIn [(⟨5, 1⟩, 10)] id + 0 + amountIn [(⟨9, 4⟩, 7)] id ≤ 10 + 0 + 7)
        (large : 10 + 0 + 7 < bound) :
        amountIn [(⟨5, 1⟩, 10)] id + 0 + amountIn [(⟨9, 4⟩, 7)] id < bound :=
      lt_of_le_of_lt below large
    exact size _ (Nat.add_le_add (Nat.add_le_add first le_rfl) second) (by decide)
  rcases rune_conservation ⟨true⟩ (.entries _ _) outputs (some (.runestone splitStone))
    [[(⟨5, 1⟩, 10)]] none (some ⟨9, 4⟩) (by
      intro stone member
      obtain rfl := Option.some.inj member
      refine ⟨by decide, ?_⟩
      intro pointer given
      obtain rfl := Option.some.inj given
      decide) (by
      intro stone member _
      obtain rfl := Option.some.inj member
      rfl) bounded with ⟨balances, credited, _, ledger, allocated, ran, assigned, _, _, full, _⟩
  exact ⟨balances, credited, ledger, allocated, ran, assigned, full rfl⟩

end Symphony
