import Deviant.Coins.ViewProgram

namespace Deviant.Coins

open Data Primitives

/-! What a cache does to the view below it, as long as it is not flushed: it reads. -/

variable {σ : Type} [BaseView σ] {cache after : CCoinsViewCache σ}

theorem closedUnderReads_base (view : σ) : ClosedUnderReads (· = CCoinsView.base view) where
  getCoin _ same := by rw [same]; rfl
  getNullifier _ same := by rw [same]; rfl
  getSaplingAnchorAt _ same := by rw [same]; rfl
  getBestAnchor same := by rw [same]; rfl
  getBestBlock same := by rw [same]; rfl

namespace CCoinsViewCache

variable {Holds : CCoinsView σ → Prop} (closed : ClosedUnderReads Holds)

include closed

theorem fetchCoin_below (holds : Holds cache.below) (outpoint : COutPoint) :
    Holds (cache.fetchCoin outpoint).2.below := by
  have read := closed.getCoin outpoint holds
  unfold fetchCoin CacheLayer.fetchCoin
  generalize cache.below.getCoin outpoint = asked at read ⊢
  obtain ⟨coin, below⟩ := asked
  cases cache.own.cacheCoins.lookup outpoint with
  | some entry => exact holds
  | none =>
    cases coin with
    | none => exact read
    | some coin => exact read

theorem spendCoin_below (holds : Holds cache.below) : Holds (cache.spendCoin outpoint).2.below := by
  have fetched := fetchCoin_below closed holds outpoint
  unfold spendCoin
  generalize cache.fetchCoin outpoint = result at fetched ⊢
  obtain ⟨entry, cache'⟩ := result
  cases entry with
  | none => exact fetched
  | some entry =>
    simp only
    split <;> exact fetched

omit [BaseView σ] closed in
theorem addCoin_below (holds : Holds cache.below)
    (added : cache.addCoin outpoint coin possibleOverwrite = .ok after) :
    Holds after.below := by
  unfold addCoin at added
  split at added
  · cases added
  · split at added
    · cases added
      exact holds
    · simp only at added
      split at added
      · cases added
      · cases added
        exact holds

theorem getNullifier_below (holds : Holds cache.below) :
    Holds (cache.getNullifier nullifier).2.below := by
  have read := closed.getNullifier nullifier holds
  unfold getNullifier CacheLayer.getNullifier
  cases cache.own.cacheSaplingNullifiers.lookup nullifier with
  | some entry => exact holds
  | none => exact read

theorem getSaplingAnchorAt_below (holds : Holds cache.below) (rt : Uint256) :
    Holds (cache.getSaplingAnchorAt rt).2.below := by
  have read := closed.getSaplingAnchorAt rt holds
  unfold getSaplingAnchorAt CacheLayer.getSaplingAnchorAt
  generalize cache.below.getSaplingAnchorAt rt = asked at read ⊢
  obtain ⟨tree, below⟩ := asked
  cases cache.own.cacheSaplingAnchors.lookup rt with
  | some entry => exact holds
  | none =>
    cases tree with
    | none => exact read
    | some tree => exact read

theorem getBestAnchor_below (holds : Holds cache.below) : Holds cache.getBestAnchor.2.below := by
  have read := closed.getBestAnchor holds
  unfold getBestAnchor CacheLayer.getBestAnchor
  by_cases unset : cache.own.hashSaplingAnchor = 0
  · rw [if_pos unset]
    exact read
  · rw [if_neg unset]
    exact holds

theorem getBestBlock_below (holds : Holds cache.below) : Holds cache.getBestBlock.2.below := by
  have read := closed.getBestBlock holds
  unfold getBestBlock CacheLayer.getBestBlock
  by_cases unset : cache.own.hashBlock = 0
  · rw [if_pos unset]
    exact read
  · rw [if_neg unset]
    exact holds

omit [BaseView σ] closed in
theorem setNullifiers_below (holds : Holds cache.below) :
    Holds (cache.setNullifiers tx spent).below := by
  unfold setNullifiers
  induction tx.shieldedSpends generalizing cache with
  | nil => exact holds
  | cons spend rest ih => exact @ih (cache.setNullifier spent spend.nullifier) holds

theorem popAnchor_below (holds : Holds cache.below) (popped : cache.popAnchor newrt = .ok after) :
    Holds after.below := by
  have best := getBestAnchor_below closed holds
  unfold popAnchor at popped
  generalize cache.getBestAnchor = asked at best popped
  obtain ⟨currentRoot, cache'⟩ := asked
  simp only at popped
  split at popped
  · cases popped
    exact best
  · have fetched := getSaplingAnchorAt_below closed best currentRoot
    generalize cache'.getSaplingAnchorAt currentRoot = found at fetched popped
    obtain ⟨tree, cache''⟩ := found
    cases tree with
    | none => cases popped
    | some tree =>
      cases popped
      exact fetched

variable [PedersenHash]

theorem pushAnchor_below (holds : Holds cache.below) : Holds (cache.pushAnchor tree).below := by
  have best := getBestAnchor_below closed holds
  unfold pushAnchor
  simp only
  split <;> exact best

theorem step_below (op : ViewOp) {answer : op.Answer} (holds : Holds cache.below)
    (stepped : step op cache = .ok (answer, after)) : Holds after.below := by
  cases op with
  | haveCoin outpoint =>
    have same : (cache.haveCoin outpoint).2 = after := congrArg Prod.snd (Except.ok.inj stepped)
    rw [← same, haveCoin_fetches]
    exact fetchCoin_below closed holds outpoint
  | accessCoin outpoint =>
    have same : (cache.accessCoin outpoint).2 = after := congrArg Prod.snd (Except.ok.inj stepped)
    rw [← same, accessCoin_fetches]
    exact fetchCoin_below closed holds outpoint
  | spendCoin outpoint =>
    have same : (cache.spendCoin outpoint).2 = after := congrArg Prod.snd (Except.ok.inj stepped)
    rw [← same]
    exact spendCoin_below closed holds
  | addCoin outpoint coin possibleOverwrite =>
    cases added : cache.addCoin outpoint coin possibleOverwrite with
    | error reason => simp [step, added, Except.map] at stepped
    | ok result =>
      simp only [step, added, Except.map, Except.ok.injEq, Prod.mk.injEq] at stepped
      exact stepped.2 ▸ addCoin_below holds added
  | getNullifier nullifier =>
    cases stepped
    exact getNullifier_below closed holds
  | setNullifiers tx spent =>
    cases stepped
    exact setNullifiers_below holds
  | getSaplingAnchorAt rt =>
    cases stepped
    exact getSaplingAnchorAt_below closed holds rt
  | getBestAnchor =>
    cases stepped
    exact getBestAnchor_below closed holds
  | pushAnchor tree =>
    cases stepped
    exact pushAnchor_below closed holds
  | popAnchor newrt =>
    cases popped : cache.popAnchor newrt with
    | error reason => simp [step, popped, Except.map] at stepped
    | ok result =>
      simp only [step, popped, Except.map, Except.ok.injEq, Prod.mk.injEq] at stepped
      exact stepped.2 ▸ popAnchor_below closed holds popped
  | getBestBlock =>
    cases stepped
    exact getBestBlock_below closed holds
  | setBestBlock hash =>
    cases stepped
    exact holds

theorem run_below {α : Type} {program : ViewProgram α} {value : α} (holds : Holds cache.below)
    (ran : Program.run step program cache = .ok (value, after)) : Holds after.below :=
  Program.run_keeps (fun op _ _ _ holds stepped => step_below closed op holds stepped) program holds ran

omit closed in
theorem child_standsFor {view : CCoinsView σ} (ok : view.Ok Known) :
    StandsFor Known view.plain ({ below := view } : CCoinsViewCache σ) :=
      ⟨emptyCache_ok ok, emptyCache_plain view⟩

omit closed in
/-- A fresh cache on a view runs every program as the plain view does, and changes no answer of the
view. -/
theorem child_runs_apart [DecidablePred Known] {view : CCoinsView σ} (ok : view.Ok Known)
    {program : ViewProgram α}
    (ran : Program.run (PlainView.step Known) program view.plain = .ok (value, plain)) :
    ∃ child : CCoinsViewCache σ, Program.run step program { below := view } = .ok (value, child) ∧
      StandsFor Known plain child ∧ child.below.Ok Known ∧ child.below.plain = view.plain := by
  obtain ⟨child, childRan, stands⟩ := cache_refines_plain.run_ok (child_standsFor ok) ran
  exact ⟨child, childRan, stands, run_below closedUnderReads_plain ⟨ok, rfl⟩ childRan⟩

end CCoinsViewCache

end Deviant.Coins
