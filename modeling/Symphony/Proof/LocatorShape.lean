import Symphony.Proof.Locator

/-! The shape of the locator: its heights fall from the tip to genesis, one by one near the tip,
and below every height of the chain they leave out no more than as much again. -/

namespace Symphony

open Encdec

/-- The rounds of the loop from the point it is about to push, run to their end. A round in
which the step is doubled has room for it. -/
inductive LocatorRounds : (pushed : Nat) → (step index : U64) → List U64 → Prop
  | last {pushed : Nat} {step step' index : U64}
      (stepped : step' = if 10 ≤ pushed + 1 then step * 2 else step)
      (fits : 10 ≤ pushed + 1 → step.toNat * 2 < 2 ^ 64)
      (ended : saturatingSub index step' = 0) :
      LocatorRounds pushed step index [index]
  | more {pushed : Nat} {step step' index next : U64} {heights : List U64}
      (stepped : step' = if 10 ≤ pushed + 1 then step * 2 else step)
      (fits : 10 ≤ pushed + 1 → step.toNat * 2 < 2 ^ 64)
      (moved : next = saturatingSub index step') (above : next ≠ 0)
      (rest : LocatorRounds (pushed + 1) step' next heights) :
      LocatorRounds pushed step index (index :: heights)

section Heights

variable {tip step index : U64} {pushed : Nat}

theorem LocatorAt.fits (here : LocatorAt tip pushed step index) (far : 10 ≤ pushed + 1) :
    step.toNat * 2 < 2 ^ 64 := by
  have position := here.position
  have value := here.step
  have bound := tip.isLt
  rw [locatorOffset, if_neg (by omega)] at position
  have power : locatorStep pushed * 2 ≤ 7 + 2 ^ (pushed - 8) := by
    rw [locatorStep]
    by_cases ninth : pushed = 9
    · subst ninth
      decide
    · have next : pushed - 8 = pushed - 9 + 1 := by omega
      rw [if_neg (by omega), next, Nat.pow_succ]
      omega
  omega

theorem LocatorAt.runs {rounds : Nat} (here : LocatorAt tip pushed step index)
    (enough : index.toNat < rounds) :
    LocatorRounds pushed step index (locatorHeights rounds pushed step index) := by
  induction rounds generalizing pushed step index with
  | zero => omega
  | succ rounds ih =>
      rw [locatorHeights]
      generalize stepped : (if 10 ≤ pushed + 1 then step * 2 else step) = step'
      generalize moved : saturatingSub index step' = next
      rcases here.round stepped.symm moved.symm with ⟨zero, _⟩ | ⟨some, lower, there⟩
      · rw [if_pos zero]
        exact .last stepped.symm here.fits (moved.trans zero)
      · rw [if_neg some]
        exact .more stepped.symm here.fits moved.symm some (ih there (by omega))

theorem LocatorAt.decreasing {rounds : Nat} (here : LocatorAt tip pushed step index) :
    (locatorHeights rounds pushed step index).Pairwise
      (fun first second => second.toNat < first.toNat) := by
  induction rounds generalizing pushed step index with
  | zero => exact .nil
  | succ rounds ih =>
      rw [locatorHeights]
      generalize stepped : (if 10 ≤ pushed + 1 then step * 2 else step) = step'
      generalize moved : saturatingSub index step' = next
      rcases here.round stepped.symm moved.symm with ⟨zero, _⟩ | ⟨some, lower, there⟩
      · rw [if_pos zero]
        exact List.pairwise_singleton _ _
      · rw [if_neg some]
        apply List.pairwise_cons.mpr
        refine ⟨?_, ih there⟩
        intro height later
        have bounds := locatorHeights_bounds there height later
        omega

end Heights

/-- The heights of a locator with genesis behind them. -/
def locatorDown (tip : U64) : List U64 := locatorOf tip ++ [0]

theorem locatorDown_decreasing {tip : U64} (positive : 1 ≤ tip.toNat) :
    (locatorDown tip).Pairwise (fun first second => second.toNat < first.toNat) := by
  apply List.pairwise_append.mpr
  refine ⟨(LocatorAt.start positive).decreasing, List.pairwise_singleton _ _, ?_⟩
  intro height member zero last
  have bounds := locatorOf_bounds positive height member
  rw [List.mem_singleton.mp last]
  exact bounds.1

theorem find?_greatest {heights : List U64} {limit : Nat} {found : U64}
    (falling : heights.Pairwise (fun first second => second.toNat < first.toNat))
    (first : heights.find? (fun height => decide (height.toNat ≤ limit)) = some found) :
    ∀ other ∈ heights, other.toNat ≤ limit → other.toNat ≤ found.toNat := by
  induction heights with
  | nil => cases first
  | cons height heights ih =>
      rcases List.pairwise_cons.mp falling with ⟨lower, rest⟩
      intro other member low
      by_cases here : height.toNat ≤ limit
      · rw [List.find?_cons_of_pos (by simpa using here), Option.some.injEq] at first
        subst first
        rcases List.mem_cons.mp member with rfl | later
        · exact le_refl _
        · exact le_of_lt (lower other later)
      · rw [List.find?_cons_of_neg (by simpa using here)] at first
        rcases List.mem_cons.mp member with rfl | later
        · exact absurd low here
        · exact ih rest first other later low

theorem locatorOffset_near {depth reached : Nat}
    (offset : locatorOffset reached = if depth < 8 then depth else 7 + 2 ^ Nat.clog 2 (depth - 7)) :
    (depth ≤ 9 → locatorOffset reached = depth) ∧ locatorOffset reached ≤ 2 * depth := by
  rw [offset]
  by_cases dense : depth < 8
  · rw [if_pos dense]
    omega
  · rw [if_neg dense]
    by_cases near : depth ≤ 9
    · have either : depth = 8 ∨ depth = 9 := by omega
      rcases either with rfl | rfl
      · decide
      · decide
    · have below : 2 ^ (Nat.clog 2 (depth - 7) - 1) < depth - 7 := by
        apply Nat.pow_pred_clog_lt_self (by decide)
        omega
      have positive : 0 < Nat.clog 2 (depth - 7) := Nat.clog_pos (by decide) (by omega)
      have double : 2 ^ Nat.clog 2 (depth - 7) = 2 ^ (Nat.clog 2 (depth - 7) - 1) * 2 := by
        rw [← Nat.pow_succ]
        congr 1
        omega
      omega

theorem locatorDown_nearest {tip : U64} (positive : 1 ≤ tip.toNat) {height : Nat}
    (inside : height ≤ tip.toNat) :
    ∃ found ∈ locatorDown tip, found.toNat ≤ height ∧
      (∀ other ∈ locatorDown tip, other.toNat ≤ height → other.toNat ≤ found.toNat) ∧
      (tip.toNat - height ≤ 9 → found.toNat = height) ∧
      tip.toNat - 2 * (tip.toNat - height) ≤ found.toNat := by
  rcases locatorOffset_reaches (tip.toNat - height) with ⟨reached, deep, least, offset⟩
  have near := locatorOffset_near offset
  have limit : tip.toNat - (tip.toNat - height) = height := by omega
  have searched := locatorHeights_find deep least (LocatorAt.start positive) (Nat.zero_le _)
    (Nat.lt_succ_self _) (Nat.sub_le _ _)
  rw [limit] at searched
  have found : (locatorDown tip).find? (fun other => decide (other.toNat ≤ height)) =
      some (BitVec.ofNat 64 (tip.toNat - locatorOffset reached)) := by
    rw [locatorDown, List.find?_append, locatorOf, searched]
    by_cases short : locatorOffset reached < tip.toNat
    · rw [if_pos short]
      rfl
    · have bottom : tip.toNat - locatorOffset reached = 0 := by omega
      rw [if_neg short, bottom]
      rfl
  have value : (BitVec.ofNat 64 (tip.toNat - locatorOffset reached)).toNat =
      tip.toNat - locatorOffset reached := by
    have bound := tip.isLt
    rw [BitVec.toNat_ofNat, Nat.mod_eq_of_lt (by omega)]
  have greatest := find?_greatest (locatorDown_decreasing positive) found
  refine ⟨_, List.mem_of_find?_eq_some found, ?_, greatest, ?_, ?_⟩
  · rw [value]
    omega
  · intro close
    rw [value, near.1 close]
    exact limit
  · rw [value]
    omega

structure LocatorShape (db : DB) (tip : U64) (genesisHash : BlockHash) (points : List Point) :
    Prop where
  looped : ∃ heights, LocatorRounds 0 1 tip heights ∧ points.map Point.height = heights ++ [0]
  decreasing : points.Pairwise (fun first second => second.height.toNat < first.height.toNat)
  first : points.head?.map Point.height = some tip
  last : points.getLast? = some ⟨0, genesisHash⟩
  stored : ∀ point ∈ points.dropLast,
    (Reader.mk db Timestamp.latest).get HashByHeightKV point.height = .ok (some point.hash)
  nearest : ∀ height ≤ tip.toNat, ∃ found ∈ points, found.height.toNat ≤ height ∧
    (∀ other ∈ points, other.height.toNat ≤ height →
      other.height.toNat ≤ found.height.toNat) ∧
    (tip.toNat - height ≤ 9 → found.height.toNat = height) ∧
    tip.toNat - 2 * (tip.toNat - height) ≤ found.height.toNat

/-- A reorganisation of some depth is answered by a rollback to the last common block or to
below it, but to no more than twice the depth. -/
def AnsweredTwice (blockHash : Header → BlockHash) (stage : PullStage) (db : DB) (peer : Peer)
    (tip : Point) (length depth : Nat) : Prop :=
  ∃ worker events after target, PullWorker.bootstrap stage (Reads.of db) tip = .ok worker ∧
    worker.fetchChainActions blockHash stage peer (Reads.of db) = .ok (events, after) ∧
    (∀ point, .rollBack point ∈ events ↔ point = target) ∧
    length - 2 * depth ≤ target.height.toNat ∧ target.height.toNat ≤ length - depth

section Shape

variable {db : DB} {chain : List Point} {top : Point} {below : List Point}

theorem map_height_onChain {heights : List U64} {points : List Point}
    (listed : List.Forall₂ (OnChain chain) heights points) : points.map Point.height = heights := by
  induction listed with
  | nil => rfl
  | cons here rest ih => rw [List.map_cons, here.2, ih]

theorem HoldsChain.shape (holds : HoldsChain db (top :: below)) (genesisHash : BlockHash) :
    ∃ points, Symphony.intersectOptions (Reads.of db) genesisHash = .ok points ∧
      LocatorShape db top.height genesisHash points := by
  have tip := holds.contiguous.1
  have positive : 1 ≤ top.height.toNat := by omega
  rcases holds.intersectOptions genesisHash with ⟨points, read, listed⟩
  have heights : (points ++ [(⟨0, genesisHash⟩ : Point)]).map Point.height =
      locatorDown top.height := by
    rw [List.map_append, map_height_onChain listed]
    rfl
  refine ⟨points ++ [⟨0, genesisHash⟩], read, ⟨?_, ?_, ?_, ?_, ?_, ?_⟩⟩
  · exact ⟨locatorOf top.height, (LocatorAt.start positive).runs (Nat.lt_succ_self _), heights⟩
  · have falling := locatorDown_decreasing positive
    rw [← heights] at falling
    exact List.pairwise_map.mp falling
  · rw [← List.head?_map, heights]
    rfl
  · exact List.getLast?_concat
  · intro point member
    rw [List.dropLast_concat] at member
    exact holds.stored (forall₂_mem listed point member)
  · intro height inside
    rcases locatorDown_nearest positive inside with ⟨found, member, low, greatest, near, far⟩
    rw [← heights, List.mem_map] at member
    rcases member with ⟨point, member, rfl⟩
    refine ⟨point, member, low, ?_, near, far⟩
    intro other listed under
    apply greatest other.height
    · rw [← heights]
      exact List.mem_map_of_mem listed
    · exact under

theorem HoldsChain.answeredTwice {blockHash : Header → BlockHash} {stage : PullStage} {peer : Peer}
    {depth : Nat} (holds : HoldsChain db (top :: below)) (linked : peer.Linked blockHash stage)
    (common : LastCommon blockHash stage peer (top :: below) ((top :: below).length - depth))
    (some : 1 ≤ depth) (inside : depth ≤ (top :: below).length)
    (forked : (top :: below).length - depth < peer.active.length) (tip : Point) :
    AnsweredTwice blockHash stage db peer tip (top :: below).length depth := by
  rcases locatorOffset_reaches depth with ⟨reached, deep, least, offset⟩
  have near := (locatorOffset_near offset).2
  rcases holds.fetched linked common some inside deep least tip with
    ⟨worker, events, after, target, booted, fetched, height, emitted⟩
  refine ⟨worker, events, after, target, booted, fetched, ?_, by omega, by omega⟩
  intro point
  rw [emitted, and_iff_right (by omega)]

end Shape

/-- On every contiguous table the loop of the locator ends, finds every entry it reads and never
overflows its step; its points fall from the tip to genesis, and a reorganisation is answered by
a rollback of at most twice its depth. -/
theorem locator_geometry (db : DB) (top : Point) (below : List Point) (genesisHash : BlockHash)
    (holds : HoldsChain db (top :: below)) :
    (∃ points, intersectOptions (Reads.of db) genesisHash = .ok points ∧
      LocatorShape db top.height genesisHash points) ∧
    ∀ (blockHash : Header → BlockHash) (stage : PullStage) (peer : Peer) (tip : Point) (depth : Nat),
      peer.Linked blockHash stage →
      LastCommon blockHash stage peer (top :: below) (top.height.toNat - depth) →
      1 ≤ depth → depth ≤ top.height.toNat → top.height.toNat - depth < peer.active.length →
      AnsweredTwice blockHash stage db peer tip top.height.toNat depth := by
  refine ⟨holds.shape genesisHash, ?_⟩
  intro blockHash stage peer tip depth linked common some inside forked
  have length : top.height.toNat = (top :: below).length := holds.contiguous.1
  rw [length] at common inside forked ⊢
  exact holds.answeredTwice linked common some inside forked tip

theorem locator_geometry_twelve :
    (∃ points, intersectOptions (Reads.of (chainDb twelveBlocks)) (hashOf 0) = .ok points ∧
      LocatorShape (chainDb twelveBlocks) 12 (hashOf 0) points) ∧
    AnsweredTwice byteHash pagedStage (chainDb twelveBlocks) forkedPeer ⟨13, hashOf 113⟩ 12 10 :=
  let geometry := locator_geometry (chainDb twelveBlocks) ⟨12, hashOf 12⟩ twelveBlocks.tail
    (hashOf 0) (holdsChain_chainDb (by decide))
  ⟨geometry.1, geometry.2 byteHash pagedStage forkedPeer ⟨13, hashOf 113⟩ 10 forkedPeer_linked
    forkedPeer_common (by decide) (by decide) (by decide)⟩

end Symphony
