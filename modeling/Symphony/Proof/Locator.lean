import Mathlib.Data.Nat.Log
import Mathlib.Tactic.IntervalCases
import Symphony.Proof.ChainInvariant
import Symphony.Storage.RangeSpec
import Symphony.Sync.Pull

/-! The locator on a contiguous table, and the rollbacks it leads to. -/

namespace Symphony

open Encdec
open Reader (rangeKeys writtenKeys)

def Contiguous : List Point → Prop
  | [] => True
  | point :: below => point.height.toNat = below.length + 1 ∧ Contiguous below

instance decidableContiguous : (chain : List Point) → Decidable (Contiguous chain)
  | [] => inferInstanceAs (Decidable True)
  | _ :: below =>
      have := decidableContiguous below
      inferInstanceAs (Decidable (_ ∧ _))

theorem Linked.contiguous {names : Header → Point → Prop} {genesis : BlockHash}
    {chain : List Point} (linked : Linked names genesis chain) : Contiguous chain := by
  induction chain with
  | nil => trivial
  | cons point below ih => exact ⟨linked.1, ih linked.2.2⟩

/-- `HashByHeightKV` holds the points of a chain, newest first, and nothing else. -/
structure HoldsChain (db : DB) (chain : List Point) : Prop where
  contiguous : Contiguous chain
  hashes : ∀ key, HashByHeightKV.Holds key → db.view key = hashAt chain key

section Chain

variable {chain : List Point} {point : Point}

theorem Contiguous.height_le (contiguous : Contiguous chain) (member : point ∈ chain) :
    1 ≤ point.height.toNat ∧ point.height.toNat ≤ chain.length := by
  induction chain with
  | nil => cases member
  | cons top below ih =>
      rw [List.length_cons]
      rcases List.mem_cons.mp member with rfl | later
      · have height := contiguous.1
        omega
      · have bounds := ih contiguous.2 later
        omega

theorem Contiguous.eq_of_height {other : Point} (contiguous : Contiguous chain)
    (member : point ∈ chain) (inside : other ∈ chain) (same : point.height = other.height) :
    point = other := by
  induction chain with
  | nil => cases member
  | cons top below ih =>
      have above (lower : Point) (later : lower ∈ below) : lower.height ≠ top.height := by
        intro equal
        have bounds := contiguous.2.height_le later
        have height := contiguous.1
        rw [equal] at bounds
        omega
      rcases List.mem_cons.mp member with rfl | later
      · rcases List.mem_cons.mp inside with rfl | lower
        · rfl
        · exact absurd same.symm (above other lower)
      · rcases List.mem_cons.mp inside with rfl | lower
        · exact absurd same (above point later)
        · exact ih contiguous.2 later lower

theorem Contiguous.point_at (contiguous : Contiguous chain) {height : Nat} (low : 1 ≤ height)
    (high : height ≤ chain.length) : ∃ point ∈ chain, point.height.toNat = height := by
  induction chain with
  | nil =>
      rw [List.length_nil] at high
      omega
  | cons top below ih =>
      rw [List.length_cons] at high
      by_cases last : height = below.length + 1
      · exact ⟨top, List.mem_cons_self, contiguous.1.trans last.symm⟩
      · rcases ih contiguous.2 (by omega) with ⟨point, member, same⟩
        exact ⟨point, List.mem_cons_of_mem _ member, same⟩

theorem hashKey_injective {first second : U64}
    (same : HashByHeightKV.encodeKey first = HashByHeightKV.encodeKey second) : first = second :=
  Table.encodeKey_injective _ trivial trivial same

theorem hashAt_member (contiguous : Contiguous chain) (member : point ∈ chain) :
    hashAt chain (HashByHeightKV.encodeKey point.height) = .ok (some (encode point.hash)) := by
  rw [hashAt]
  cases found : chain.find? (fun other => decide (HashByHeightKV.encodeKey other.height =
      HashByHeightKV.encodeKey point.height)) with
  | none =>
      have absent := List.find?_eq_none.mp found point member
      simp at absent
  | some other =>
      have inside := List.mem_of_find?_eq_some found
      have same := List.find?_some found
      rw [decide_eq_true_eq] at same
      rw [contiguous.eq_of_height inside member (hashKey_injective same)]
      rfl

theorem hashAt_some {key : RawKey} {value : RawValue}
    (found : hashAt chain key = .ok (some value)) :
    ∃ point ∈ chain, key = HashByHeightKV.encodeKey point.height ∧ value = encode point.hash := by
  rw [hashAt] at found
  cases listed : chain.find? (fun point => decide (HashByHeightKV.encodeKey point.height = key)) with
  | none =>
      rw [listed] at found
      cases found
  | some point =>
      rw [listed, Option.map_some, Except.ok.injEq, Option.some.injEq] at found
      have same := List.find?_some listed
      rw [decide_eq_true_eq] at same
      exact ⟨point, List.mem_of_find?_eq_some listed, same.symm, found.symm⟩

end Chain

theorem head?_filterMap_reverse {α : Type} {keys : List RawKey} {item : RawKey → Option α}
    {key : RawKey} {value : α} (ordered : keys.Pairwise (fun first second => first ≤ second ∧ first ≠ second))
    (member : key ∈ keys) (here : item key = some value)
    (above : ∀ other ∈ keys, key ≤ other → other ≠ key → item other = none) :
    (keys.reverse.filterMap item).head? = some value := by
  rcases List.append_of_mem member with ⟨below, higher, rfl⟩
  have larger := (List.pairwise_cons.mp (List.pairwise_append.mp ordered).2.1).1
  have silent : higher.reverse.filterMap item = [] := by
    rw [List.filterMap_eq_nil_iff]
    intro other inside
    have listed := List.mem_reverse.mp inside
    exact above other (List.mem_append_right _ (List.mem_cons_of_mem _ listed)) (larger other listed).1
      (larger other listed).2.symm
  simp [silent, here]

section Table

variable {db : DB} {chain : List Point} {point : Point}

theorem HoldsChain.stored (holds : HoldsChain db chain) (member : point ∈ chain) :
    (Reader.mk db Timestamp.latest).get HashByHeightKV point.height = .ok (some point.hash) := by
  have cell := holds.hashes _ (Table.holds_encodeKey HashByHeightKV point.height)
  rw [hashAt_member holds.contiguous member] at cell
  rw [Reader.get, show db.get Timestamp.latest _ = _ from cell]
  simp only [IndexingTask.decodeCell, bind, Except.bind, pure, Except.pure,
    decodeAll_encode point.hash trivial, liftDecoding]

theorem HoldsChain.readPoint (holds : HoldsChain db chain) (member : point ∈ chain) :
    readPoint db point.height = .ok point := by
  rw [Symphony.readPoint, holds.stored member]

theorem HoldsChain.of_readPoint (holds : HoldsChain db chain)
    (read : Symphony.readPoint db point.height = .ok point) : point ∈ chain := by
  have cell := holds.hashes _ (Table.holds_encodeKey HashByHeightKV point.height)
  cases found : hashAt chain (HashByHeightKV.encodeKey point.height) with
  | error failure =>
      rw [hashAt] at found
      cases found
  | ok stored =>
      rw [found] at cell
      cases stored with
      | none =>
          have none : (Reader.mk db Timestamp.latest).get HashByHeightKV point.height = .ok none := by
            rw [Reader.get, show db.get Timestamp.latest _ = _ from cell]
            rfl
          rw [Symphony.readPoint, none] at read
          cases read
      | some value =>
          rcases hashAt_some found with ⟨other, member, same, _⟩
          have here := holds.readPoint member
          rw [← hashKey_injective same, read, Except.ok.injEq] at here
          rw [here]
          exact member

theorem HoldsChain.newest (holds : HoldsChain db chain) :
    ((Reader.mk db Timestamp.latest).iterKvs HashByHeightKV
        (HashByHeightKV.encodeRange none none) true).head? =
      chain.head?.map (fun point => .ok (point.height, point.hash)) := by
  have scanned (key : RawKey) (member : key ∈ rangeKeys db (HashByHeightKV.encodeRange none none)) :
      HashByHeightKV.Holds key :=
    (TableName.range_exact .hashByHeight key).mp ((mem_rangeKeys db _ key).mp member).2
  cases chain with
  | nil =>
      have silent : (Reader.mk db Timestamp.latest).iterKvs HashByHeightKV
          (HashByHeightKV.encodeRange none none) true = [] := by
        simp only [Reader.iterKvs, if_true]
        rw [List.filterMap_eq_nil_iff]
        intro key member
        have cell := holds.hashes key (scanned key (List.mem_reverse.mp member))
        rw [show db.get Timestamp.latest key = _ from cell]
        rfl
      rw [silent]
      rfl
  | cons top below =>
      have cell := holds.hashes _ (Table.holds_encodeKey HashByHeightKV top.height)
      rw [hashAt_member holds.contiguous List.mem_cons_self] at cell
      have written : HashByHeightKV.encodeKey top.height ∈ writtenKeys db := by
        by_contra absent
        rw [view_unwritten absent] at cell
        cases cell
      have inside := (mem_rangeKeys db (HashByHeightKV.encodeRange none none) _).mpr
        ⟨written, (TableName.range_exact .hashByHeight _).mpr (Table.holds_encodeKey HashByHeightKV _)⟩
      simp only [Reader.iterKvs, if_true]
      rw [@head?_filterMap_reverse _ _ _ _ (.ok (top.height, top.hash)) (strict_rangeKeys db _) inside]
      · rfl
      · rw [show db.get Timestamp.latest _ = _ from cell]
        have key : (HashByHeightKV.encodeKey top.height).drop HashByHeightKV.tag.length =
            encode top.height := List.drop_left
        simp only [Reader.decodeEntry, key, decodeAll_encode top.height trivial,
          decodeAll_encode top.hash trivial, liftDecoding, bind, Except.bind, pure, Except.pure]
      · intro other member larger different
        have stored := holds.hashes other (scanned other member)
        rw [show db.get Timestamp.latest other = _ from stored]
        cases value : hashAt (top :: below) other with
        | error failure =>
            rw [hashAt] at value
            cases value
        | ok found =>
            cases found with
            | none => rfl
            | some bytes =>
                rcases hashAt_some value with ⟨lower, listed, rfl, _⟩
                have order : top.height ≤ lower.height := by
                  apply @height_le_of_le HashByHeightKV.tag [] [] top.height lower.height
                  rw [List.append_nil, List.append_nil]
                  exact larger
                have bounds := holds.contiguous.height_le listed
                have height := holds.contiguous.1
                rw [BitVec.le_def] at order
                rw [List.length_cons] at bounds
                have same : lower.height = top.height := by
                  apply BitVec.eq_of_toNat_eq
                  omega
                exact absurd (congrArg HashByHeightKV.encodeKey same) different

theorem HoldsChain.lastEntryHeight (holds : HoldsChain db chain) :
    lastEntryHeight db = .ok (chain.head?.map Point.height) := by
  rw [Symphony.lastEntryHeight, holds.newest]
  cases chain <;> rfl

end Table

/-! The heights of the locator. -/

def locatorOffset (index : Nat) : Nat := if index < 8 then index else 7 + 2 ^ (index - 8)

def locatorStep (index : Nat) : Nat := if index < 10 then 1 else 2 ^ (index - 9)

theorem locatorOffset_succ (index : Nat) :
    locatorOffset (index + 1) = locatorOffset index + locatorStep (index + 1) := by
  simp only [locatorOffset, locatorStep]
  by_cases small : index + 1 < 10
  · have few : index < 9 := by omega
    rw [if_pos small]
    interval_cases index
    all_goals rfl
  · have power : 2 ^ (index + 1 - 8) = 2 ^ (index - 8) + 2 ^ (index + 1 - 9) := by
      have same : index + 1 - 9 = index - 8 := by omega
      have next : index + 1 - 8 = (index - 8) + 1 := by omega
      rw [same, next, Nat.pow_succ]
      omega
    rw [if_neg (by omega), if_neg (by omega), if_neg small, power]
    omega

theorem locatorStep_pos (index : Nat) : 0 < locatorStep index := by
  rw [locatorStep]
  split
  · decide
  · exact Nat.two_pow_pos _

/-- The state of the loop before it pushes the point of a round. -/
structure LocatorAt (tip : U64) (pushed : Nat) (step index : U64) : Prop where
  position : index.toNat + locatorOffset pushed = tip.toNat
  low : 1 ≤ index.toNat
  step : step.toNat = locatorStep pushed

namespace LocatorAt

variable {tip step index : U64} {pushed : Nat}

theorem start (positive : 1 ≤ tip.toNat) : LocatorAt tip 0 1 tip := ⟨rfl, positive, rfl⟩

theorem doubled (here : LocatorAt tip pushed step index) :
    (if 10 ≤ pushed + 1 then step * 2 else step).toNat = locatorStep (pushed + 1) := by
  have value := here.step
  have position := here.position
  have positive := here.low
  have bound := tip.isLt
  rw [locatorOffset] at position
  rw [locatorStep] at value ⊢
  by_cases far : 10 ≤ pushed + 1
  · rw [if_pos far, if_neg (by omega), BitVec.toNat_mul, value]
    rw [if_neg (by omega)] at position
    have two : (2 : U64).toNat = 2 := rfl
    by_cases first : pushed = 9
    · subst first
      rfl
    · have power : 2 ^ (pushed - 9) * 2 = 2 ^ (pushed - 8) := by
        rw [← Nat.pow_succ]
        congr 1
        omega
      have same : pushed + 1 - 9 = pushed - 8 := by omega
      rw [if_neg (by omega), two, power, same, Nat.mod_eq_of_lt (by omega)]
  · rw [if_neg far, if_pos (by omega), value, if_pos (by omega)]

theorem round (here : LocatorAt tip pushed step index) {step' next : U64}
    (stepped : step' = if 10 ≤ pushed + 1 then step * 2 else step)
    (moved : next = saturatingSub index step') :
    (next = 0 ∧ tip.toNat ≤ locatorOffset (pushed + 1)) ∨
      (next ≠ 0 ∧ next.toNat < index.toNat ∧ LocatorAt tip (pushed + 1) step' next) := by
  have taken : step'.toNat = locatorStep (pushed + 1) := by
    rw [stepped]
    exact here.doubled
  have value : next.toNat = index.toNat - locatorStep (pushed + 1) := by
    rw [moved, toNat_saturatingSub, taken]
  have position := here.position
  have positive := locatorStep_pos (pushed + 1)
  have offset := locatorOffset_succ pushed
  by_cases zero : next = 0
  · left
    have none : next.toNat = 0 := by
      rw [zero]
      rfl
    exact ⟨zero, by omega⟩
  · right
    have some : next.toNat ≠ 0 := by
      intro none
      exact zero (BitVec.eq_of_toNat_eq none)
    exact ⟨zero, by omega, by omega, by omega, taken⟩

end LocatorAt

theorem locatorHeights_find {tip : U64} {depth reached : Nat} (deep : depth ≤ locatorOffset reached)
    (first : ∀ index < reached, locatorOffset index < depth) {rounds pushed : Nat}
    {step index : U64} (here : LocatorAt tip pushed step index) (before : pushed ≤ reached)
    (enough : index.toNat < rounds) (inside : depth ≤ tip.toNat) :
    (locatorHeights rounds pushed step index).find?
        (fun height => decide (height.toNat ≤ tip.toNat - depth)) =
      if locatorOffset reached < tip.toNat
      then some (BitVec.ofNat 64 (tip.toNat - locatorOffset reached)) else none := by
  induction rounds generalizing pushed step index with
  | zero => omega
  | succ rounds ih =>
      have position := here.position
      have low := here.low
      rw [locatorHeights]
      generalize stepped : (if 10 ≤ pushed + 1 then step * 2 else step) = step'
      generalize moved : saturatingSub index step' = next
      by_cases last : pushed = reached
      · subst last
        rw [List.find?_cons_of_pos (by rw [decide_eq_true_eq]; omega), if_pos (by omega)]
        congr 1
        apply BitVec.eq_of_toNat_eq
        have bound := tip.isLt
        rw [BitVec.toNat_ofNat, Nat.mod_eq_of_lt (by omega)]
        omega
      · have higher := first pushed (by omega)
        rw [List.find?_cons_of_neg (by rw [decide_eq_true_eq]; omega)]
        rcases here.round stepped.symm moved.symm with ⟨zero, ended⟩ | ⟨some, lower, there⟩
        · have beyond : tip.toNat ≤ locatorOffset reached := by
            by_cases next : pushed + 1 = reached
            · rw [← next]
              exact ended
            · have small := first (pushed + 1) (by omega)
              omega
          rw [if_pos zero, if_neg (by omega)]
          rfl
        · rw [if_neg some]
          exact ih there (by omega) (by omega)

theorem locatorHeights_bounds {tip : U64} {rounds pushed : Nat} {step index : U64}
    (here : LocatorAt tip pushed step index) :
    ∀ height ∈ locatorHeights rounds pushed step index,
      1 ≤ height.toNat ∧ height.toNat ≤ index.toNat := by
  induction rounds generalizing pushed step index with
  | zero =>
      intro height member
      cases member
  | succ rounds ih =>
      intro height member
      have low := here.low
      rw [locatorHeights] at member
      generalize stepped : (if 10 ≤ pushed + 1 then step * 2 else step) = step' at member
      generalize moved : saturatingSub index step' = next at member
      rcases List.mem_cons.mp member with rfl | later
      · exact ⟨low, le_refl _⟩
      · rcases here.round stepped.symm moved.symm with ⟨zero, _⟩ | ⟨some, lower, there⟩
        · rw [if_pos zero] at later
          cases later
        · rw [if_neg some] at later
          have bounds := ih there height later
          omega

def locatorOf (tip : U64) : List U64 := locatorHeights (tip.toNat + 1) 0 1 tip

def OnChain (chain : List Point) (height : U64) (point : Point) : Prop :=
  point ∈ chain ∧ point.height = height

theorem readPoints_onChain {chain : List Point} {reads : Reads} {heights : List U64}
    (each : ∀ index height, heights[index]? = some height →
      ∃ point, OnChain chain height point ∧ readPoint (reads.get index) height = .ok point) :
    ∃ points, readPoints reads heights = .ok points ∧
      List.Forall₂ (OnChain chain) heights points := by
  induction heights generalizing reads with
  | nil => exact ⟨[], rfl, .nil⟩
  | cons height heights ih =>
      rcases each 0 height rfl with ⟨point, here, first⟩
      rcases @ih reads.rest (by
        intro index other found
        exact each (index + 1) other found) with ⟨points, later, listed⟩
      refine ⟨point :: points, ?_, .cons here listed⟩
      rw [readPoints, first]
      exact congrArg (fun result => Except.map (fun points => point :: points) result) later

theorem intersectOptions_onChain {chain : List Point} {reads : Reads} {tip : U64}
    (last : lastEntryHeight reads.top = .ok (some tip))
    (each : ∀ index height, (locatorOf tip)[index]? = some height →
      ∃ point, OnChain chain height point ∧ readPoint (reads.get index) height = .ok point)
    (genesisHash : BlockHash) :
    ∃ points, intersectOptions reads genesisHash = .ok (points ++ [⟨0, genesisHash⟩]) ∧
      List.Forall₂ (OnChain chain) (locatorOf tip) points := by
  rcases readPoints_onChain each with ⟨points, read, listed⟩
  refine ⟨points, ?_, listed⟩
  rw [intersectOptions, last]
  exact congrArg (fun result => Except.map (fun points => points ++ [⟨0, genesisHash⟩]) result) read

theorem HoldsChain.readHeight {db : DB} {chain : List Point} (holds : HoldsChain db chain)
    {height : U64} (low : 1 ≤ height.toNat) (high : height.toNat ≤ chain.length) :
    ∃ point, OnChain chain height point ∧ Symphony.readPoint db height = .ok point := by
  rcases holds.contiguous.point_at low high with ⟨point, member, number⟩
  have same : point.height = height := BitVec.eq_of_toNat_eq number
  refine ⟨point, ⟨member, same⟩, ?_⟩
  rw [← same]
  exact holds.readPoint member

theorem locatorOf_bounds {tip : U64} (positive : 1 ≤ tip.toNat) :
    ∀ height ∈ locatorOf tip, 1 ≤ height.toNat ∧ height.toNat ≤ tip.toNat :=
  locatorHeights_bounds (LocatorAt.start positive)

theorem HoldsChain.intersectOptions {db : DB} {top : Point} {below : List Point}
    (holds : HoldsChain db (top :: below)) (genesisHash : BlockHash) :
    ∃ points, intersectOptions (Reads.of db) genesisHash = .ok (points ++ [⟨0, genesisHash⟩]) ∧
      List.Forall₂ (OnChain (top :: below)) (locatorOf top.height) points := by
  have height := holds.contiguous.1
  have last : Symphony.lastEntryHeight (Reads.of db).top = .ok (some top.height) :=
    holds.lastEntryHeight
  apply @intersectOptions_onChain _ (Reads.of db) _ last
  intro index other found
  have bounds := locatorOf_bounds (by omega) other (List.mem_of_getElem? found)
  apply holds.readHeight bounds.1
  rw [List.length_cons]
  omega

theorem find?_forall₂ {α β : Type} {related : α → β → Prop} {first : List α} {second : List β}
    (pairs : List.Forall₂ related first second) {test : α → Bool} {other : β → Bool}
    (same : ∀ left right, related left right → test left = other right) :
    (first.find? test = none ∧ second.find? other = none) ∨
      ∃ left right, first.find? test = some left ∧ second.find? other = some right ∧
        related left right := by
  induction pairs with
  | nil => exact Or.inl ⟨rfl, rfl⟩
  | cons related rest ih =>
      rename_i left right lefts rights
      have equal := same left right related
      by_cases holds : test left = true
      · right
        refine ⟨left, right, List.find?_cons_of_pos holds, ?_, related⟩
        exact List.find?_cons_of_pos (equal ▸ holds)
      · rw [List.find?_cons_of_neg holds, List.find?_cons_of_neg (equal ▸ holds)]
        exact ih

/-! The rollback that answers a reorganisation. -/

/-- A node whose active chain is linked by the hashes of its headers. -/
structure Peer.Linked (blockHash : Header → BlockHash) (stage : PullStage) (peer : Peer) : Prop where
  parents : peer.active.map (fun block => block.header.prevBlockhash) =
    (peer.hashes blockHash stage).dropLast
  distinct : (peer.hashes blockHash stage).Nodup
  serves : 0 < peer.limit

structure LastCommon (blockHash : Header → BlockHash) (stage : PullStage) (peer : Peer)
    (chain : List Point) (height : Nat) : Prop where
  shared : ∀ point ∈ chain, point.height.toNat ≤ height →
    (peer.hashes blockHash stage)[point.height.toNat]? = some point.hash
  apart : ∀ point ∈ chain, height < point.height.toNat → point.hash ∉ peer.hashes blockHash stage

section Fetch

variable {blockHash : Header → BlockHash} {stage : PullStage} {peer : Peer}

theorem idxOf_eq {hashes : List BlockHash} {index : Nat} {hash : BlockHash}
    (distinct : hashes.Nodup) (found : hashes[index]? = some hash) : hashes.idxOf hash = index := by
  rcases List.getElem?_eq_some_iff.mp found with ⟨bound, rfl⟩
  exact distinct.idxOf_getElem index bound

theorem Peer.Linked.after (linked : peer.Linked blockHash stage) {locator : List BlockHash}
    {index : Nat} {hash : BlockHash}
    (first : locator.find? (fun other => decide (other ∈ peer.hashes blockHash stage)) = some hash)
    (place : (peer.hashes blockHash stage)[index]? = some hash)
    (more : index < peer.active.length) :
    ∃ block later, peer.getNewHeaders blockHash stage locator = block :: later ∧
      block.header.prevBlockhash = hash := by
  have start := idxOf_eq linked.distinct place
  have parent := congrArg (fun hashes => hashes[index]?) linked.parents
  have short : index < (peer.hashes blockHash stage).length - 1 := by
    rw [Peer.hashes, List.length_cons, List.length_map]
    exact more
  rw [List.getElem?_map, List.getElem?_dropLast, if_pos short, place, List.getElem?_eq_getElem more,
    Option.map_some, Option.some.injEq] at parent
  rcases Nat.exists_eq_succ_of_ne_zero (Nat.ne_of_gt linked.serves) with ⟨limit, served⟩
  refine ⟨peer.active[index], (peer.active.drop (index + 1)).take limit, ?_, parent⟩
  simp only [Peer.getNewHeaders, first, start]
  rw [List.drop_eq_getElem_cons more, served, List.take_succ_cons]

theorem rollForwards_forward (height : BlockHeight) (tip point : Point) (blocks : List NodeBlock) :
    .rollBack point ∉ (rollForwards blockHash height tip blocks).1 := by
  induction blocks generalizing height tip with
  | nil => exact List.not_mem_nil
  | cons block blocks ih =>
      intro member
      rcases List.mem_cons.mp member with impossible | later
      · cases impossible
      · exact ih _ _ later

theorem PullWorker.fetch_rollBack {worker : PullWorker} {reads : Reads} {block : NodeBlock}
    {later : List NodeBlock} {height : BlockHeight} {options : List Point}
    (headers : peer.getNewHeaders blockHash stage (worker.cursor.map Point.hash) = block :: later)
    (intersect : intersectHeight worker.cursor block.header.prevBlockhash = some height)
    (read : intersectOptions reads stage.genesisHash = .ok options) :
    ∃ events after, worker.fetchChainActions blockHash stage peer reads = .ok (events, after) ∧
      ∀ point, .rollBack point ∈ events ↔
        .rollBack point ∈ rollBackTo worker.cursor ⟨height, block.header.prevBlockhash⟩ := by
  have cursor (fetched : List Point) : ∃ next, nextCursor stage fetched reads = .ok next := by
    rw [nextCursor]
    simp only [read, orPanic, orElse]
    split
    · split
      · exact ⟨_, rfl⟩
      · exact ⟨_, rfl⟩
    · exact ⟨_, rfl⟩
  rcases cursor (assignHeights blockHash (height + 1) ((block :: later).take stage.blockPageSize)) with
    ⟨next, built⟩
  let forwards := rollForwards blockHash (height + 1) worker.tip
    ((block :: later).take stage.blockPageSize)
  have fetched : worker.fetchChainActions blockHash stage peer reads =
      .ok (rollBackTo worker.cursor ⟨height, block.header.prevBlockhash⟩ ++ forwards.1,
        ⟨next, forwards.2⟩) := by
    rw [PullWorker.fetchChainActions, headers]
    simp only [intersect, built, forwards]
  refine ⟨_, _, fetched, ?_⟩
  intro point
  rw [List.mem_append, or_iff_left (rollForwards_forward _ _ _ _)]

/-- Every point of the cursor that is on the active chain is there at its height. -/
def Placed (blockHash : Header → BlockHash) (stage : PullStage) (peer : Peer) (cursor : List Point) :
    Prop :=
  ∀ point ∈ cursor, point.hash ∈ peer.hashes blockHash stage →
    (peer.hashes blockHash stage)[point.height.toNat]? = some point.hash

theorem Placed.intersectHeight {cursor : List Point} {point : Point}
    (placed : Placed blockHash stage peer cursor) (linked : peer.Linked blockHash stage)
    (member : point ∈ cursor) (active : point.hash ∈ peer.hashes blockHash stage) :
    intersectHeight cursor point.hash = some point.height := by
  rw [Symphony.intersectHeight]
  cases found : cursor.reverse.find? (fun other => decide (other.hash = point.hash)) with
  | none =>
      have absent := List.find?_eq_none.mp found point (List.mem_reverse.mpr member)
      simp at absent
  | some other =>
      have inside := List.mem_reverse.mp (List.mem_of_find?_eq_some found)
      have same := List.find?_some found
      rw [decide_eq_true_eq] at same
      have here := placed point member active
      have there := placed other inside (same ▸ active)
      rw [same] at there
      have height : other.height.toNat = point.height.toNat := by
        rw [← idxOf_eq linked.distinct there, idxOf_eq linked.distinct here]
      rw [Option.map_some, BitVec.eq_of_toNat_eq height]

theorem Placed.fetch {worker : PullWorker} {reads : Reads} {target : Point} {options : List Point}
    (placed : Placed blockHash stage peer worker.cursor) (linked : peer.Linked blockHash stage)
    (first : worker.cursor.find? (fun point => decide (point.hash ∈ peer.hashes blockHash stage)) =
      some target)
    (read : Symphony.intersectOptions reads stage.genesisHash = .ok options) :
    ∃ events after, worker.fetchChainActions blockHash stage peer reads = .ok (events, after) ∧
      ∀ point, .rollBack point ∈ events ↔
        target.height.toNat < peer.active.length ∧ .rollBack point ∈ rollBackTo worker.cursor target := by
  have member := List.mem_of_find?_eq_some first
  have active := List.find?_some first
  rw [decide_eq_true_eq] at active
  have place := placed target member active
  have located : (worker.cursor.map Point.hash).find?
      (fun hash => decide (hash ∈ peer.hashes blockHash stage)) = some target.hash := by
    rw [List.find?_map]
    exact congrArg (Option.map Point.hash) first
  by_cases more : target.height.toNat < peer.active.length
  · rcases linked.after located place more with ⟨block, later, headers, parent⟩
    have height := placed.intersectHeight linked member active
    rw [← parent] at height
    rcases PullWorker.fetch_rollBack headers height read with ⟨events, after, fetched, emitted⟩
    refine ⟨events, after, fetched, ?_⟩
    intro point
    rw [emitted, parent, and_iff_right more]
  · have none : peer.getNewHeaders blockHash stage (worker.cursor.map Point.hash) = [] := by
      simp only [Peer.getNewHeaders, located, idxOf_eq linked.distinct place]
      rw [List.drop_of_length_le (by omega), List.take_nil]
    refine ⟨[], worker, by rw [PullWorker.fetchChainActions, none], ?_⟩
    intro point
    constructor
    · intro impossible
      cases impossible
    · intro behind
      exact absurd behind.1 more

variable {db : DB} {chain : List Point} {height : Nat}

theorem LastCommon.placed (common : LastCommon blockHash stage peer chain height) {points : List Point}
    (inside : ∀ point ∈ points, point ∈ chain) :
    Placed blockHash stage peer (points ++ [⟨0, stage.genesisHash⟩]) := by
  intro point member active
  rcases List.mem_append.mp member with listed | genesis
  · apply common.shared point (inside point listed)
    by_contra above
    exact common.apart point (inside point listed) (by omega) active
  · rw [List.mem_singleton.mp genesis]
    rfl

theorem forall₂_mem {heights : List U64} {points : List Point}
    (listed : List.Forall₂ (OnChain chain) heights points) : ∀ point ∈ points, point ∈ chain := by
  induction listed with
  | nil =>
      intro point member
      cases member
  | cons here rest ih =>
      intro point member
      rcases List.mem_cons.mp member with rfl | later
      · exact here.1
      · exact ih point later

theorem LastCommon.first {top : Point} {below points : List Point} {depth reached : Nat}
    (contiguous : Contiguous (top :: below))
    (common : LastCommon blockHash stage peer (top :: below) ((top :: below).length - depth))
    (deep : depth ≤ locatorOffset reached) (least : ∀ index < reached, locatorOffset index < depth)
    (inside : depth ≤ (top :: below).length)
    (listed : List.Forall₂ (OnChain (top :: below)) (locatorOf top.height) points) :
    ∃ target : Point, (points ++ [(⟨0, stage.genesisHash⟩ : Point)]).find?
        (fun point => decide (point.hash ∈ peer.hashes blockHash stage)) = some target ∧
      target.height.toNat = (top :: below).length - locatorOffset reached := by
  have tip : top.height.toNat = (top :: below).length := contiguous.1
  have filled : 0 < (top :: below).length := List.length_pos_of_ne_nil (List.cons_ne_nil top below)
  have start : LocatorAt top.height 0 1 top.height := LocatorAt.start (by omega)
  have searched : (locatorOf top.height).find?
      (fun height => decide (height.toNat ≤ (top :: below).length - depth)) =
        if locatorOffset reached < (top :: below).length
        then some (BitVec.ofNat 64 ((top :: below).length - locatorOffset reached)) else none := by
    rw [← tip] at inside ⊢
    exact locatorHeights_find deep least start (Nat.zero_le _) (Nat.lt_succ_self _) inside
  have same (number : U64) (point : Point) (on : OnChain (top :: below) number point) :
      decide (number.toNat ≤ (top :: below).length - depth) =
        decide (point.hash ∈ peer.hashes blockHash stage) := by
    rcases on with ⟨member, rfl⟩
    by_cases low : point.height.toNat ≤ (top :: below).length - depth
    · have active := List.mem_of_getElem? (common.shared point member low)
      rw [decide_eq_true low, decide_eq_true active]
    · have apart := common.apart point member (by omega)
      rw [decide_eq_false low, decide_eq_false apart]
  have genesis : stage.genesisHash ∈ peer.hashes blockHash stage := List.mem_cons_self
  rcases find?_forall₂ listed same with ⟨none, missing⟩ | ⟨number, point, some, found, on⟩
  · rw [searched] at none
    have beyond : ¬ locatorOffset reached < (top :: below).length := by
      intro short
      rw [if_pos short] at none
      cases none
    refine ⟨⟨0, stage.genesisHash⟩, ?_, ?_⟩
    · rw [List.find?_append, missing, Option.none_or, List.find?_cons_of_pos (by simpa using genesis)]
    · have zero : (0 : U64).toNat = 0 := rfl
      rw [zero]
      omega
  · rw [searched] at some
    have short : locatorOffset reached < (top :: below).length := by
      by_contra beyond
      rw [if_neg beyond] at some
      cases some
    rw [if_pos short, Option.some.injEq] at some
    refine ⟨point, by rw [List.find?_append, found, Option.some_or], ?_⟩
    have bound := top.height.isLt
    rw [on.2, ← some, BitVec.toNat_ofNat, Nat.mod_eq_of_lt (by omega)]

theorem rollBackTo_locator {tip : U64} {points : List Point} {target genesis : Point}
    (listed : List.Forall₂ (OnChain chain) (locatorOf tip) points) (behind : target.height ≠ tip) :
    rollBackTo (points ++ [genesis]) target = [.rollBack target] := by
  rw [locatorOf, locatorHeights] at listed
  cases listed with
  | cons here rest =>
      rw [List.cons_append, rollBackTo, List.head?_cons]
      simp only [here.2, ne_eq, behind, not_false_eq_true, if_true]

theorem LastCommon.active_length (common : LastCommon blockHash stage peer chain height)
    (contiguous : Contiguous chain) (low : 1 ≤ height) (high : height ≤ chain.length) :
    height ≤ peer.active.length := by
  rcases contiguous.point_at low high with ⟨point, member, same⟩
  have place := common.shared point member (by omega)
  have bound := (List.getElem?_eq_some_iff.mp place).1
  rw [Peer.hashes, List.length_cons, List.length_map] at bound
  omega

end Fetch

theorem locatorOffset_reaches (depth : Nat) : ∃ reached, depth ≤ locatorOffset reached ∧
    (∀ index < reached, locatorOffset index < depth) ∧
    locatorOffset reached = if depth < 8 then depth else 7 + 2 ^ Nat.clog 2 (depth - 7) := by
  by_cases dense : depth < 8
  · refine ⟨depth, ?_, ?_, ?_⟩
    · rw [locatorOffset, if_pos dense]
    · intro index below
      rw [locatorOffset, if_pos (by omega)]
      exact below
    · rw [locatorOffset, if_pos dense, if_pos dense]
  · have covers : depth - 7 ≤ 2 ^ Nat.clog 2 (depth - 7) := Nat.le_pow_clog (by decide) _
    refine ⟨8 + Nat.clog 2 (depth - 7), ?_, ?_, ?_⟩
    · rw [locatorOffset, if_neg (by omega), Nat.add_sub_cancel_left]
      omega
    · intro index below
      rw [locatorOffset]
      split
      · omega
      · have smaller : 2 ^ (index - 8) < depth - 7 :=
          (Nat.lt_clog_iff_pow_lt (by decide)).mp (by omega)
        omega
    · rw [locatorOffset, if_neg (by omega), if_neg dense, Nat.add_sub_cancel_left]

/-- With the cursor built from the table, a fetch rolls back to no lower height. -/
def AnsweredAbove (blockHash : Header → BlockHash) (stage : PullStage) (db : DB) (peer : Peer)
    (tip : Point) (lowest : Nat) : Prop :=
  ∃ worker events after, PullWorker.bootstrap stage (Reads.of db) tip = .ok worker ∧
    worker.fetchChainActions blockHash stage peer (Reads.of db) = .ok (events, after) ∧
    ∀ point, .rollBack point ∈ events → lowest ≤ point.height.toNat

theorem HoldsChain.fetched {blockHash : Header → BlockHash} {stage : PullStage} {db : DB}
    {top : Point} {below : List Point} {peer : Peer} {depth reached : Nat}
    (holds : HoldsChain db (top :: below)) (linked : peer.Linked blockHash stage)
    (common : LastCommon blockHash stage peer (top :: below) ((top :: below).length - depth))
    (some : 1 ≤ depth) (inside : depth ≤ (top :: below).length)
    (deep : depth ≤ locatorOffset reached) (least : ∀ index < reached, locatorOffset index < depth)
    (tip : Point) :
    ∃ worker events after target, PullWorker.bootstrap stage (Reads.of db) tip = .ok worker ∧
      worker.fetchChainActions blockHash stage peer (Reads.of db) = .ok (events, after) ∧
      target.height.toNat = (top :: below).length - locatorOffset reached ∧
      ∀ point, .rollBack point ∈ events ↔
        target.height.toNat < peer.active.length ∧ point = target := by
  rcases holds.intersectOptions stage.genesisHash with ⟨points, read, listed⟩
  rcases common.first holds.contiguous deep least inside listed with ⟨target, first, height⟩
  have booted : PullWorker.bootstrap stage (Reads.of db) tip =
      .ok ⟨points ++ [⟨0, stage.genesisHash⟩], tip⟩ := by
    rw [PullWorker.bootstrap, read]
    rfl
  have placed := common.placed (forall₂_mem listed)
  rcases @Placed.fetch _ _ _ ⟨points ++ [⟨0, stage.genesisHash⟩], tip⟩ _ _ _ placed linked first read
    with ⟨events, after, fetched, emitted⟩
  have top_height : top.height.toNat = (top :: below).length := holds.contiguous.1
  have behind : target.height ≠ top.height := by
    intro same
    rw [same] at height
    omega
  rw [rollBackTo_locator listed behind] at emitted
  refine ⟨_, events, after, target, booted, fetched, height, ?_⟩
  intro point
  rw [emitted, List.mem_singleton, ChainEvent.rollBack.injEq]

/-- How far below the tip a reorganisation of some depth is answered. -/
theorem HoldsChain.answeredAbove_iff {blockHash : Header → BlockHash} {stage : PullStage} {db : DB}
    {top : Point} {below : List Point} {peer : Peer} {tip : Point} {depth reached : Nat}
    (holds : HoldsChain db (top :: below)) (linked : peer.Linked blockHash stage)
    (common : LastCommon blockHash stage peer (top :: below) ((top :: below).length - depth))
    (some : 1 ≤ depth) (inside : depth ≤ (top :: below).length)
    (deep : depth ≤ locatorOffset reached) (least : ∀ index < reached, locatorOffset index < depth)
    (lowest : Nat) :
    AnsweredAbove blockHash stage db peer tip lowest ↔
      ((top :: below).length - locatorOffset reached < peer.active.length →
        lowest ≤ (top :: below).length - locatorOffset reached) := by
  rcases holds.fetched linked common some inside deep least tip with
    ⟨worker, events, after, target, booted, fetched, height, emitted⟩
  rw [← height]
  constructor
  · rintro ⟨worker', events', after', booted', fetched', bounded⟩ more
    rw [booted, Except.ok.injEq] at booted'
    subst booted'
    rw [fetched, Except.ok.injEq, Prod.mk.injEq] at fetched'
    rw [← fetched'.1] at bounded
    exact bounded target ((emitted target).mpr ⟨more, rfl⟩)
  · intro bounded
    refine ⟨worker, events, after, booted, fetched, ?_⟩
    intro point member
    rcases (emitted point).mp member with ⟨more, rfl⟩
    exact bounded more

/-- With the cursor built from the table, a reorganisation of some depth within `max_rollback`
is answered by a rollback within `max_rollback` if and only if the locator is dense there, the
chain is no longer than `max_rollback`, or the locator's next point is still within it. -/
theorem rollback_target_iff (blockHash : Header → BlockHash) (stage : PullStage) (db : DB)
    (chain : List Point) (peer : Peer) (tip : Point) (maxRollback depth : Nat)
    (holds : HoldsChain db chain) (linked : peer.Linked blockHash stage)
    (common : LastCommon blockHash stage peer chain (chain.length - depth))
    (some : 1 ≤ depth) (within : depth ≤ maxRollback) (inside : depth < chain.length) :
    AnsweredAbove blockHash stage db peer tip (chain.length - maxRollback) ↔
      depth ≤ 9 ∨ chain.length ≤ maxRollback ∨ 7 + 2 ^ Nat.clog 2 (depth - 7) ≤ maxRollback := by
  rcases chain with _ | ⟨top, below⟩
  · exact absurd inside (Nat.not_lt_zero depth)
  rcases locatorOffset_reaches depth with ⟨reached, deep, least, offset⟩
  have long := common.active_length holds.contiguous (by omega) (Nat.sub_le _ _)
  rw [holds.answeredAbove_iff linked common some (le_of_lt inside) deep least]
  split at offset
  · omega
  · have eight : depth = 8 → 2 ^ Nat.clog 2 (depth - 7) = 1 := by
      rintro rfl
      rfl
    have nine : depth = 9 → 2 ^ Nat.clog 2 (depth - 7) = 2 := by
      rintro rfl
      rfl
    omega

def chainDb (chain : List Point) : DB where
  log := [⟨1, chain.reverse.map (fun point =>
    .put (HashByHeightKV.encodeKey point.height) (encode point.hash))⟩]
  fullHistoryTsLow := 0

theorem holdsChain_chainDb {chain : List Point} (contiguous : Contiguous chain) :
    HoldsChain (chainDb chain) chain := by
  refine ⟨contiguous, ?_⟩
  intro key _
  have visible : (VersionedLog.visible (chainDb chain).log Timestamp.latest.asRocksTs).flatMap
      VersionedLog.Commit.ops = chain.reverse.map (fun point =>
        .put (HashByHeightKV.encodeKey point.height) (encode point.hash)) := by
    have seen : (1 : RocksTs) ≤ Timestamp.latest.asRocksTs := Timestamp.asRocksTs_le_latest 1
    simp [VersionedLog.visible, chainDb, seen]
  rw [DB.view, DB.get, VersionedLog.readAt, visible]
  clear visible contiguous
  induction chain with
  | nil => rfl
  | cons point below ih =>
      rw [List.reverse_cons, List.map_append, VersionedLog.replay_append, ih, hashAt_cons]
      simp only [List.map_cons, List.map_nil, VersionedLog.replay, List.foldl_cons, List.foldl_nil,
        WriteOp.act, eq_comm]

def byteHash (header : Header) : BlockHash := List.Vector.replicate 32 (header.fields.headD 0)

def hashOf (byte : BigEndian.Byte) : BlockHash := List.Vector.replicate 32 byte

def byteConfig : Config := ⟨.regtest, hashOf 0, some 2, none, false⟩

def linkedBlocks (parent : BigEndian.Byte) : List BigEndian.Byte → List NodeBlock
  | [] => []
  | byte :: bytes => ⟨⟨hashOf parent, [byte]⟩, []⟩ :: linkedBlocks byte bytes

def twelveBlocks : List Point :=
  [⟨12, hashOf 12⟩, ⟨11, hashOf 11⟩, ⟨10, hashOf 10⟩, ⟨9, hashOf 9⟩, ⟨8, hashOf 8⟩, ⟨7, hashOf 7⟩,
    ⟨6, hashOf 6⟩, ⟨5, hashOf 5⟩, ⟨4, hashOf 4⟩, ⟨3, hashOf 3⟩, ⟨2, hashOf 2⟩, ⟨1, hashOf 1⟩]

def forkedPeer : Peer where
  active := linkedBlocks 0 [1, 2, 103, 104, 105, 106, 107, 108, 109, 110, 111, 112, 113]
  limit := 2000

def pagedStage : PullStage := ⟨hashOf 0, 100⟩

theorem forkedPeer_linked : forkedPeer.Linked byteHash pagedStage :=
  ⟨by decide +kernel, by decide +kernel, by decide⟩

theorem forkedPeer_common : LastCommon byteHash pagedStage forkedPeer twelveBlocks 2 :=
  ⟨by decide +kernel, by decide +kernel⟩

theorem rollback_target_iff_eleven :
    AnsweredAbove byteHash pagedStage (chainDb twelveBlocks) forkedPeer ⟨13, hashOf 113⟩ (12 - 11) ↔
      10 ≤ 9 ∨ 12 ≤ 11 ∨ 7 + 2 ^ Nat.clog 2 (10 - 7) ≤ 11 :=
  rollback_target_iff byteHash pagedStage (chainDb twelveBlocks) twelveBlocks forkedPeer _ 11 10
    (holdsChain_chainDb (by decide)) forkedPeer_linked forkedPeer_common (by decide) (by decide)
    (by decide)

/-- A reorganisation of ten blocks, with `max_rollback` ten, is answered by a rollback of
eleven. -/
theorem rollback_overshoots :
    (HoldsChain (chainDb twelveBlocks) twelveBlocks ∧ forkedPeer.Linked byteHash pagedStage ∧
      LastCommon byteHash pagedStage forkedPeer twelveBlocks (twelveBlocks.length - 10)) ∧
    ¬ AnsweredAbove byteHash pagedStage (chainDb twelveBlocks) forkedPeer ⟨13, hashOf 113⟩
      (twelveBlocks.length - 10) := by
  refine ⟨⟨holdsChain_chainDb (by decide), forkedPeer_linked, forkedPeer_common⟩, ?_⟩
  rintro ⟨worker, events, after, booted, fetched, bounded⟩
  have whole : ((PullWorker.bootstrap pagedStage (Reads.of (chainDb twelveBlocks))
      ⟨13, hashOf 113⟩).bind (fun worker => (worker.fetchChainActions byteHash pagedStage forkedPeer
        (Reads.of (chainDb twelveBlocks))).map (fun result => result.1.head?))) =
      .ok (some (.rollBack ⟨1, hashOf 1⟩)) := by decide +kernel
  rw [booted] at whole
  simp only [Except.bind, fetched, Except.map, Except.ok.injEq] at whole
  have low := bounded ⟨1, hashOf 1⟩ (List.mem_of_mem_head? whole)
  exact absurd low (by decide)

end Symphony
