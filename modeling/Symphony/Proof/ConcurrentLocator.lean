import Symphony.Proof.Locator

/-! The locator built while the index stage commits.

Every read is at the latest timestamp, so it sees the table after some commit of the log. A
commit puts one point on top of the chain or takes points off it. -/

namespace Symphony

open Encdec
open VersionedLog (Commit Increasing)

def dbAfter (log : List (Commit RocksTs WriteOp)) (count : Nat) : DB := ⟨log.take count, 0⟩

structure ReadTimes where
  top : Nat
  get : Nat → Nat
  later : top ≤ get 0
  ordered : Monotone get

namespace ReadTimes

def reads (times : ReadTimes) (log : List (Commit RocksTs WriteOp)) : Reads :=
  ⟨dbAfter log times.top, fun index => dbAfter log (times.get index)⟩

def last (times : ReadTimes) : (gets : Nat) → Nat
  | 0 => times.top
  | gets + 1 => times.get gets

end ReadTimes

/-- The call does not fail, and its points lie on one chain that the table held at a moment of
the call, down to genesis. -/
def OnOneChain (genesis : BlockHash) (log : List (Commit RocksTs WriteOp)) (times : ReadTimes) :
    Prop :=
  ∃ points, intersectOptions (times.reads log) genesis = .ok points ∧
    ∃ moment chain, times.top ≤ moment ∧ moment ≤ times.last (points.length - 1) ∧
      HoldsChain (dbAfter log moment) chain ∧ ∀ point ∈ points, point ∈ chain ∨ point = ⟨0, genesis⟩

def Reaches (db : DB) (height : U64) : Prop :=
  ∃ tip, lastEntryHeight db = .ok (some tip) ∧ height ≤ tip

/-- No commit from the first `get` on leaves the table below a height that is still to be read. -/
def Steady (log : List (Commit RocksTs WriteOp)) (times : ReadTimes) : Prop :=
  ∀ tip, lastEntryHeight (dbAfter log times.top) = .ok (some tip) →
    ∀ index height, (locatorOf tip)[index]? = some height →
      ∀ moment, times.get 0 ≤ moment → moment ≤ times.get index → Reaches (dbAfter log moment) height

/-! The chains the table goes through. -/

def upTo (height : Nat) (chain : List Point) : List Point := chain.drop (chain.length - height)

theorem ChainStep.upTo {before after : List Point} {height : Nat} (step : ChainStep before after)
    (reached : height ≤ before.length) (still : height ≤ after.length) :
    upTo height after = upTo height before := by
  rcases step with ⟨point, rfl⟩ | ⟨count, rfl⟩
  · have above : (point :: before).length - height = (before.length - height) + 1 := by
      rw [List.length_cons]
      omega
    rw [Symphony.upTo, above, List.drop_succ_cons, Symphony.upTo]
  · rw [List.length_drop] at still
    rw [Symphony.upTo, List.drop_drop, List.length_drop, Symphony.upTo]
    by_cases short : count ≤ before.length
    · congr 1
      omega
    · have zero : height = 0 := by omega
      rw [zero, List.drop_of_length_le (by omega), List.drop_of_length_le (by omega)]

theorem upTo_subset {height : Nat} {chain : List Point} {point : Point}
    (member : point ∈ upTo height chain) : point ∈ chain :=
  List.mem_of_mem_drop member

theorem Contiguous.drop {chain : List Point} (contiguous : Contiguous chain) (count : Nat) :
    Contiguous (chain.drop count) := by
  induction count generalizing chain with
  | zero => exact contiguous
  | succ count ih =>
      cases chain with
      | nil => trivial
      | cons point below => exact ih contiguous.2

theorem Contiguous.mem_upTo {chain : List Point} {point : Point} (contiguous : Contiguous chain)
    (member : point ∈ chain) : point ∈ upTo point.height.toNat chain := by
  have bounds := contiguous.height_le member
  have length : (upTo point.height.toNat chain).length = point.height.toNat := by
    rw [upTo, List.length_drop]
    omega
  rcases (contiguous.drop (chain.length - point.height.toNat)).point_at bounds.1 (le_of_eq length.symm)
    with ⟨other, inside, same⟩
  have equal : other = point :=
    contiguous.eq_of_height (upTo_subset inside) member (BitVec.eq_of_toNat_eq same)
  rw [← equal]
  rw [← equal] at inside
  exact inside

structure Trace (log : List (Commit RocksTs WriteOp)) (chainAt : Nat → List Point) : Prop where
  holds : ∀ count, HoldsChain (dbAfter log count) (chainAt count)
  steps : ∀ count, ChainStep (chainAt count) (chainAt (count + 1))

namespace Trace

variable {log : List (Commit RocksTs WriteOp)} {chainAt : Nat → List Point}

theorem snoc {commit : Commit RocksTs WriteOp} {chain : List Point} (trace : Trace log chainAt)
    (step : ChainStep (chainAt log.length) chain) (holds : HoldsChain ⟨log ++ [commit], 0⟩ chain) :
    Trace (log ++ [commit]) (fun count => if count ≤ log.length then chainAt count else chain) := by
  constructor
  · intro count
    by_cases old : count ≤ log.length
    · rw [if_pos old, dbAfter, List.take_append_of_le_length old]
      exact trace.holds count
    · have whole : (log ++ [commit]).length ≤ count := by
        rw [List.length_append, List.length_singleton]
        omega
      rw [if_neg old, dbAfter, List.take_of_length_le whole]
      exact holds
  · intro count
    by_cases old : count + 1 ≤ log.length
    · rw [if_pos (by omega), if_pos old]
      exact trace.steps count
    · rw [if_neg old]
      by_cases last : count ≤ log.length
      · have same : count = log.length := by omega
        rw [if_pos last, same]
        exact step
      · rw [if_neg last]
        exact chainStep_same chain

theorem upTo {first last height : Nat} (trace : Trace log chainAt) (order : first ≤ last)
    (reached : ∀ count, first ≤ count → count ≤ last → height ≤ (chainAt count).length) :
    upTo height (chainAt last) = upTo height (chainAt first) := by
  induction last, order using Nat.le_induction with
  | base => rfl
  | succ last order ih =>
      calc Symphony.upTo height (chainAt (last + 1))
          = Symphony.upTo height (chainAt last) :=
            (trace.steps last).upTo (reached last order (Nat.le_succ last))
              (reached (last + 1) (Nat.le_succ_of_le order) (le_refl _))
        _ = Symphony.upTo height (chainAt first) :=
            ih (by
              intro count low high
              exact reached count low (Nat.le_succ_of_le high))

theorem reaches (trace : Trace log chainAt) {count : Nat} {height : U64}
    (reached : Reaches (dbAfter log count) height) : height.toNat ≤ (chainAt count).length := by
  rcases reached with ⟨tip, last, order⟩
  rw [(trace.holds count).lastEntryHeight, Except.ok.injEq, Option.map_eq_some_iff] at last
  rcases last with ⟨point, top, rfl⟩
  have bounds := (trace.holds count).contiguous.height_le (List.mem_of_mem_head? top)
  rw [BitVec.le_def] at order
  omega

theorem onOneChain (trace : Trace log chainAt) {times : ReadTimes} (steady : Steady log times)
    (genesis : BlockHash) : OnOneChain genesis log times := by
  have read := (trace.holds times.top).lastEntryHeight
  cases chain : chainAt times.top with
  | nil =>
      rw [chain, List.head?_nil, Option.map_none] at read
      refine ⟨[⟨0, genesis⟩], ?_, times.top, [], le_refl _, le_refl _, ?_, ?_⟩
      · have none : lastEntryHeight (times.reads log).top = .ok none := read
        rw [intersectOptions, none]
      · rw [← chain]
        exact trace.holds times.top
      · intro point member
        exact Or.inr (List.mem_singleton.mp member)
  | cons top below =>
      rw [chain, List.head?_cons, Option.map_some] at read
      have positive : 1 ≤ top.height.toNat := by
        have height := (trace.holds times.top).contiguous
        rw [chain] at height
        have number := height.1
        omega
      have each (index : Nat) (height : U64)
          (found : (locatorOf top.height)[index]? = some height) :
          ∃ point, OnChain (chainAt (times.get 0)) height point ∧
            readPoint ((times.reads log).get index) height = .ok point := by
        have order : times.get 0 ≤ times.get index := times.ordered (Nat.zero_le index)
        have reached := steady top.height read index height found
        have bounds := locatorOf_bounds positive height (List.mem_of_getElem? found)
        have same := trace.upTo order (by
          intro count low high
          exact trace.reaches (reached count low high))
        rcases (trace.holds (times.get index)).readHeight bounds.1
          (trace.reaches (reached _ order (le_refl _))) with ⟨point, ⟨member, rfl⟩, given⟩
        have kept := (trace.holds (times.get index)).contiguous.mem_upTo member
        rw [same] at kept
        exact ⟨point, ⟨upTo_subset kept, rfl⟩, given⟩
      have last : lastEntryHeight (times.reads log).top = .ok (some top.height) := read
      rcases @intersectOptions_onChain _ (times.reads log) _ last each genesis with
        ⟨points, call, listed⟩
      refine ⟨points ++ [⟨0, genesis⟩], call, times.get 0, chainAt (times.get 0), times.later, ?_,
        trace.holds _, ?_⟩
      · have count : (points ++ [(⟨0, genesis⟩ : Point)]).length - 1 = points.length := by
          rw [List.length_append, List.length_singleton, Nat.add_sub_cancel]
        rw [count, ← listed.length_eq]
        exact times.ordered (Nat.zero_le _)
      · intro point member
        rcases List.mem_append.mp member with inside | last
        · exact Or.inl (forall₂_mem listed point inside)
        · exact Or.inr (List.mem_singleton.mp last)

end Trace

/-- The table of a machine has gone through a trace of chains that ends with its own. -/
def Traced (names : Header → Point → Prop) (genesis : BlockHash) : Machine → Prop :=
  Along names genesis (fun log chain => ∃ chainAt, Trace log chainAt ∧ chainAt log.length = chain)

theorem ChainInv.holdsChain {names : Header → Point → Prop} {genesis : BlockHash} {machine : Machine}
    {chain : List Point} {ledger : List LedgerEntry}
    (inv : ChainInv names genesis machine chain ledger) :
    HoldsChain ⟨machine.stage.db.db.log, 0⟩ chain :=
  ⟨inv.linked.contiguous, inv.tables.hashes⟩

theorem kept_traced (names : Header → Point → Prop) (genesis : BlockHash) :
    Kept names genesis (Traced names genesis) (Traced names genesis) := by
  apply kept_along
  rintro machine log commit chain chain' ledger ⟨chainAt, trace, rfl⟩ grown inv step
  have holds := inv.holdsChain
  rw [grown] at holds ⊢
  refine ⟨_, trace.snoc step holds, ?_⟩
  rw [List.length_append, List.length_singleton, if_neg (by omega)]

theorem traced_bootstrap (names : Header → Point → Prop) (config : Config)
    (indexers : List Indexer) (stage : Stage)
    (fresh : Stage.new config (StorageHandler.openDb DB.empty) = .ok stage) :
    Traced names config.genesisHash (Machine.bootstrap indexers stage) := by
  have coherent := coherent_bootstrap names config indexers stage fresh
  rcases coherent.inv with ⟨chain, ledger, inv⟩
  have empty : (Machine.bootstrap indexers stage).stage.db.db.log = [] := by
    rw [Stage.new_empty, Except.ok.injEq] at fresh
    rw [← fresh]
    rfl
  refine ⟨chain, ledger, inv, fun _ => chain, ⟨?_, ?_⟩, rfl⟩
  · intro count
    have holds := inv.holdsChain
    rw [empty] at holds
    rw [empty, dbAfter, List.take_nil]
    exact holds
  · intro count
    exact chainStep_same chain

/-- A call of `intersect_options` whose reads fall anywhere between the commits of a run gives
points of one chain, if no commit from its first `get` on leaves the table below a height that
is still to be read. -/
theorem locator_on_one_chain (blockHash : Header → BlockHash) (config : Config)
    (indexers : List Indexer) (stage : Stage) (events : List (Env × ChainEvent)) (times : ReadTimes)
    (fresh : Stage.new config (StorageHandler.openDb DB.empty) = .ok stage)
    (valid : ∀ event ∈ events, event.2.Valid (HashedBy blockHash))
    (increasing : Increasing ((Machine.bootstrap indexers stage).run events).stage.db.db.log)
    (steady : Steady ((Machine.bootstrap indexers stage).run events).stage.db.db.log times) :
    OnOneChain config.genesisHash ((Machine.bootstrap indexers stage).run events).stage.db.db.log
      times := by
  rcases (kept_traced (HashedBy blockHash) config.genesisHash).run
    (traced_bootstrap _ config indexers stage fresh) events valid increasing with
    ⟨chain, ledger, inv, chainAt, trace, _⟩
  exact trace.onOneChain steady config.genesisHash

def twoBlockEvents : List (Env × ChainEvent) :=
  [(acceptAt 5, .rollForward ⟨1, hashOf 1⟩ ⟨hashOf 0, [1]⟩ [] ⟨2, hashOf 2⟩),
    (acceptAt 7, .rollForward ⟨2, hashOf 2⟩ ⟨hashOf 1, [2]⟩ [] ⟨2, hashOf 2⟩),
    (acceptAt 9, .rollBack ⟨1, hashOf 1⟩)]

def twoBlockLog : List (Commit RocksTs WriteOp) :=
  ((Machine.bootstrap [] (Stage.empty byteConfig)).run twoBlockEvents).stage.db.db.log

def lateRollback : ReadTimes where
  top := 2
  get index := min 3 (index + 2)
  later := by decide
  ordered := by
    intro first second order
    dsimp only
    omega

def earlyRollback : ReadTimes where
  top := 2
  get _ := 3
  later := by decide
  ordered := by
    intro first second order
    exact le_refl 3

theorem lateRollback_steady : Steady twoBlockLog lateRollback := by
  intro tip last index height found moment low high
  have two : lastEntryHeight (dbAfter twoBlockLog lateRollback.top) = .ok (some 2) := by
    decide +kernel
  rw [two, Except.ok.injEq, Option.some.injEq] at last
  subst last
  have heights : locatorOf 2 = [2, 1] := by decide +kernel
  have before : Reaches (dbAfter twoBlockLog 2) 2 := ⟨2, by decide +kernel, by decide⟩
  have same : Reaches (dbAfter twoBlockLog 2) 1 := ⟨2, by decide +kernel, by decide⟩
  have after : Reaches (dbAfter twoBlockLog 3) 1 := ⟨1, by decide +kernel, by decide⟩
  rw [heights] at found
  cases index with
  | zero =>
      obtain rfl : (2 : U64) = height := by simpa using found
      obtain rfl : moment = 2 := le_antisymm high low
      exact before
  | succ index =>
      cases index with
      | zero =>
          obtain rfl : (1 : U64) = height := by simpa using found
          obtain rfl | rfl : moment = 2 ∨ moment = 3 := by
            have first : 2 ≤ moment := low
            have second : moment ≤ 3 := high
            omega
          · exact same
          · exact after
      | succ index => simp at found

theorem locator_on_one_chain_late_rollback :
    Steady twoBlockLog lateRollback ∧ OnOneChain (hashOf 0) twoBlockLog lateRollback :=
  ⟨lateRollback_steady, locator_on_one_chain byteHash byteConfig [] _ twoBlockEvents lateRollback
    (Stage.new_empty byteConfig) (by decide +kernel) (by decide +kernel) lateRollback_steady⟩

/-- A rollback between the iterator and the first `get` takes the entry away that the iterator
has seen. -/
theorem locator_panics :
    Stage.new byteConfig (StorageHandler.openDb DB.empty) = .ok (Stage.empty byteConfig) ∧
      (∀ event ∈ twoBlockEvents, event.2.Valid (HashedBy byteHash)) ∧ Increasing twoBlockLog ∧
      ¬ OnOneChain byteConfig.genesisHash twoBlockLog earlyRollback := by
  refine ⟨Stage.new_empty byteConfig, by decide +kernel, by decide +kernel, ?_⟩
  rintro ⟨points, read, _⟩
  have failed : intersectOptions (earlyRollback.reads twoBlockLog) byteConfig.genesisHash =
      .error (.panicked "missing hash by height kv") := by decide +kernel
  rw [failed] at read
  cases read

end Symphony
