import Deviant.BlockIndex.ChainSelection

namespace Deviant.Masternode

open BlockIndex List Primitives

/-! The masternode manager's view of the active chain: a ring with the hashes of the newest blocks,
which the tip's moves update, and a best height, which `ProcessNewBlock` sets. -/

/-- `CACHED_BLOCK_HASHES`. -/
def cachedBlockHashes : Nat := 200

instance : NeZero cachedBlockHashes := ⟨by decide⟩

/-- The active chain by height, and what the manager has of it. -/
structure ChainView where
  chain : List Uint256
  cvLastBlockHashes : Fin cachedBlockHashes → Uint256 := fun _ => 0
  nBestHeight : Int := 0

inductive TipMove where
  | disconnectTip
  | connectTip (hash : Uint256)
deriving DecidableEq

/-- A call of `ProcessNewBlock` with a block that `AcceptBlock` takes: the index with the block in
it, what `ConnectBlock` says of the blocks, and what `ActivateBestChain` does to the tip. -/
structure NewBlockCall where
  tree : BlockTree
  pindex : Uint256
  verdict : Verdict
  moves : List TipMove := []

variable (chain : List Uint256)

namespace ChainView

section

variable (view : ChainView)

def height : Int := view.chain.length - 1

/-- `CyclingVector::Set`. -/
def cache (nHeight : Nat) (hash : Uint256) : ChainView :=
  { view with
    cvLastBlockHashes :=
      Function.update view.cvLastBlockHashes (Fin.ofNat cachedBlockHashes nHeight) hash }

def cached (nHeight : Nat) : Uint256 := view.cvLastBlockHashes (Fin.ofNat cachedBlockHashes nHeight)

/-- `GetHashAtHeight`; `none` for a null pointer. -/
def getHashAtHeight (nHeight : Int) : Option Uint256 :=
  if nHeight < 0 then some 0
  else if view.nBestHeight < nHeight then some 0
  else if view.nBestHeight - cachedBlockHashes < nHeight then some (view.cached nHeight.toNat)
  else view.chain[nHeight.toNat]?

/-- What the end of `DisconnectTip` and of `ConnectTip` does. -/
def move : TipMove → ChainView
  | .connectTip hash => { view.cache view.chain.length hash with chain := view.chain ++ [hash] }
  | .disconnectTip =>
    let top := view.chain.length - 1
    let replaced :=
      if cachedBlockHashes ≤ top then
        view.cache (top - cachedBlockHashes) ((view.chain[top - cachedBlockHashes]?).getD 0)
      else view.cache top 0
    { replaced with chain := view.chain.dropLast }

def processNewBlock (fLiteMode : Bool) (call : NewBlockCall) : ChainView :=
  let moved := call.moves.foldl move view
  if fLiteMode then moved else { moved with nBestHeight := call.tree.heightOf call.pindex }

end

/-- `LoadBlockHashesCache`: the turns of the loop that goes down from the tip. -/
def loadBlockHashesCache (view : ChainView) : (turns : Nat) → ChainView
  | 0 => view
  | inserted + 1 =>
    let loaded := loadBlockHashesCache view inserted
    match view.chain.reverse[inserted]? with
    | none => loaded
    | some hash => loaded.cache (view.chain.length - 1 - inserted) hash

def start (chain : List Uint256) : ChainView :=
  loadBlockHashesCache { chain := chain, nBestHeight := chain.length - 1 } cachedBlockHashes

variable {view : ChainView} {nHeight other : Nat} {hash : Uint256}

theorem cached_cache_same :
    (view.cache nHeight hash).cached nHeight = hash := Function.update_self _ _ _

theorem cached_cache_other (differs : other % cachedBlockHashes ≠ nHeight % cachedBlockHashes) :
    (view.cache nHeight hash).cached other = view.cached other :=
  Function.update_of_ne (fun same => differs (congrArg Fin.val same)) _ _

theorem cached_mk :
    (ChainView.mk chain view.cvLastBlockHashes best).cached nHeight = view.cached nHeight := rfl

/-- The ring has the hashes of the newest blocks of the chain. -/
def RingFollows (view : ChainView) : Prop :=
  ∀ nHeight hash, view.chain[nHeight]? = some hash →
    view.chain.length ≤ nHeight + cachedBlockHashes → view.cached nHeight = hash

theorem RingFollows.connectTip (follows : view.RingFollows) (hash : Uint256) :
    (view.move (.connectTip hash)).RingFollows := by
  intro nHeight found there recent
  simp only [move, length_append, length_singleton] at there recent
  by_cases new : nHeight = view.chain.length
  · subst new
    have same : hash = found := by simpa using there
    rw [move, cached_mk, cached_cache_same, same]
  · have inside := (List.getElem?_eq_some_iff.mp there).1
    rw [length_append, length_singleton] at inside
    rw [List.getElem?_append_left (by omega)] at there
    rw [move, cached_mk, cached_cache_other (by unfold cachedBlockHashes at *; omega)]
    exact follows nHeight found there (by omega)

theorem RingFollows.disconnectTip (follows : view.RingFollows) :
    (view.move .disconnectTip).RingFollows := by
  intro nHeight found there recent
  simp only [move, length_dropLast] at there recent
  have inside := (List.getElem?_eq_some_iff.mp there).1
  rw [length_dropLast] at inside
  rw [List.getElem?_dropLast, if_pos inside] at there
  have kept (other : view.chain.length ≤ nHeight + cachedBlockHashes) :=
    follows nHeight found there other
  unfold move
  rw [cached_mk]
  split
  case isTrue deep =>
    by_cases back : nHeight = view.chain.length - 1 - cachedBlockHashes
    · rw [← back, there, cached_cache_same]
      rfl
    · rw [cached_cache_other (by unfold cachedBlockHashes at *; omega)]
      exact kept (by omega)
  case isFalse shallow =>
    rw [cached_cache_other (by unfold cachedBlockHashes at *; omega)]
    exact kept (by omega)

theorem RingFollows.moves (follows : view.RingFollows) (moves : List TipMove) :
    (moves.foldl move view).RingFollows := by
  refine foldlRecOn moves _ follows fun view follows move _ => ?_
  cases move with
  | disconnectTip => exact follows.disconnectTip
  | connectTip hash => exact follows.connectTip hash

theorem loaded (few : turns ≤ cachedBlockHashes) :
      (view.loadBlockHashesCache turns).chain = view.chain ∧
        (view.loadBlockHashesCache turns).nBestHeight = view.nBestHeight ∧
      ∀ nHeight hash, view.chain[nHeight]? = some hash → view.chain.length ≤ nHeight + turns →
        (view.loadBlockHashesCache turns).cached nHeight = hash := by
  induction turns with
  | zero =>
    refine ⟨rfl, rfl, fun nHeight hash there recent => ?_⟩
    have := (List.getElem?_eq_some_iff.mp there).1
    omega
  | succ inserted ih =>
    obtain ⟨chain, best, ring⟩ := ih (by omega)
    rw [loadBlockHashesCache]
    split
    case h_1 past =>
      rw [List.getElem?_eq_none_iff, length_reverse] at past
      exact ⟨chain, best, fun nHeight hash there _ => ring nHeight hash there (by omega)⟩
    case h_2 top atTop =>
      refine ⟨chain, best, fun nHeight hash there recent => ?_⟩
      have inside := (List.getElem?_eq_some_iff.mp there).1
      have below := (List.getElem?_eq_some_iff.mp atTop).1
      rw [length_reverse] at below
      rw [List.getElem?_reverse below] at atTop
      by_cases new : nHeight = view.chain.length - 1 - inserted
      · rw [new, atTop] at there
        cases there
        rw [new, cached_cache_same]
      · rw [cached_cache_other (by unfold cachedBlockHashes at *; omega)]
        exact ring nHeight hash there (by omega)

theorem start_chain : (start chain).chain = chain := (loaded le_rfl).1

theorem ringFollows_start : (start chain).RingFollows := by
  intro nHeight hash there recent
  rw [start_chain] at there recent
  exact (loaded le_rfl).2.2 nHeight hash there recent

variable {env : IndexEnv} {fLiteMode : Bool} {call : NewBlockCall}
    {allowed : ChainView → NewBlockCall → Prop}

/-- A call as it occurs: `CheckBlockIndex` finds nothing wrong, and the moves lead to the chain that
is selected. -/
structure Occurs (env : IndexEnv) (view : ChainView) (call : NewBlockCall) : Prop where
  sound : call.tree.Sound env
  accepted : ∀ pindex ∈ call.tree.chainActive, call.verdict.accepts pindex = true
  known : call.pindex ∈ call.tree.blocks
  active : call.tree.chainActive = view.chain.reverse
  moved : ∀ after ∈ call.tree.activateBestChain env call.verdict,
    after.chainActive = (call.moves.foldl move view).chain.reverse

inductive Reachable (fLiteMode : Bool) (allowed : ChainView → NewBlockCall → Prop) :
    ChainView → Prop
  | start (chain : List Uint256) : Reachable fLiteMode allowed (start chain)
  | processNewBlock {view : ChainView} {call : NewBlockCall}
      (before : Reachable fLiteMode allowed view) (occurs : allowed view call) :
      Reachable fLiteMode allowed (view.processNewBlock fLiteMode call)

theorem ringFollows_of_reachable (reachable : Reachable fLiteMode allowed view) :
    view.RingFollows := by
  induction reachable with
  | start chain => exact ringFollows_start chain
  | @processNewBlock view call _ _ follows =>
    unfold ChainView.processNewBlock
    split
    · exact follows.moves call.moves
    · exact follows.moves call.moves

/-- The manager sees the active chain. -/
structure Follows (view : ChainView) : Prop where
  height : view.nBestHeight = view.height
  hashes : ∀ (nHeight : Nat) (hash : Uint256), view.chain[nHeight]? = some hash →
    view.getHashAtHeight nHeight = some hash
  above : ∀ nHeight : Int, view.nBestHeight < nHeight → view.getHashAtHeight nHeight = some 0

theorem RingFollows.follows_iff (ring : view.RingFollows) :
    view.Follows ↔ view.nBestHeight = view.height := by
  refine ⟨Follows.height, fun same => ⟨same, fun nHeight hash there => ?_, fun nHeight past => ?_⟩⟩
  · have inside := (List.getElem?_eq_some_iff.mp there).1
    unfold height at same
    unfold getHashAtHeight
    rw [if_neg (by omega), if_neg (by omega)]
    split
    case isTrue recent => exact congrArg some (ring nHeight hash there (by omega))
    case isFalse => exact there
  · unfold getHashAtHeight
    split
    · rfl
    · rfl

/-- The best block that can be connected is as high as the accepted one, or, in lite mode, as the
tip. -/
def Fits (env : IndexEnv) (fLiteMode : Bool) (view : ChainView) (call : NewBlockCall) : Prop :=
  ∀ best ∈ call.tree.blocks, call.tree.Best env call.verdict best →
    (call.tree.heightOf best : Int) = if fLiteMode then view.height
    else call.tree.heightOf call.pindex

instance : Decidable (Fits env fLiteMode view call) :=
  inferInstanceAs (Decidable (∀ best ∈ call.tree.blocks, _))

theorem nBestHeight_moves (moves : List TipMove) :
    (moves.foldl move view).nBestHeight = view.nBestHeight := by
  induction moves generalizing view with
  | nil => rfl
  | cons first rest ih =>
    rw [foldl_cons, ih]
    cases first with
    | connectTip hash => rfl
    | disconnectTip =>
      unfold move
      dsimp only
      split <;> rfl

theorem Occurs.height (occurs : Occurs env view call) :
    ∃ best ∈ call.tree.blocks, call.tree.Best env call.verdict best ∧
      (call.moves.foldl move view).height = call.tree.heightOf best := by
  obtain ⟨after, best, selected, known, isBest, length⟩ :=
    occurs.sound.activates_best occurs.accepted
  refine ⟨best, known, isBest, ?_⟩
  rw [occurs.moved after selected, length_reverse] at length
  unfold ChainView.height
  omega

theorem height_processNewBlock (occurs : Occurs env view call) (fits : Fits env fLiteMode view call)
    (same : view.nBestHeight = view.height) :
    (view.processNewBlock fLiteMode call).nBestHeight =
      (view.processNewBlock fLiteMode call).height := by
  obtain ⟨best, known, isBest, height⟩ := occurs.height
  have fit := fits best known isBest
  unfold processNewBlock
  cases fLiteMode with
  | true => rw [if_pos rfl, nBestHeight_moves, height, fit, same, if_pos rfl]
  | false => exact (height.trans fit).symm

/-- In every run the manager sees the active chain just where its best height is that of the chain,
and so it does throughout a run in which every accepted block is as high as the best one. -/
theorem manager_follows_chain (env : IndexEnv) (fLiteMode : Bool) (view : ChainView) :
    (Reachable fLiteMode (Occurs env) view → (view.Follows ↔ view.nBestHeight = view.height)) ∧
      (Reachable fLiteMode (fun view call => Occurs env view call ∧
        Fits env fLiteMode view call) view →
        view.Follows) := by
  refine ⟨fun reachable => (ringFollows_of_reachable reachable).follows_iff, fun reachable => ?_⟩
  refine (ringFollows_of_reachable reachable).follows_iff.mpr ?_
  induction reachable with
  | start chain =>
    rw [height, start_chain]
    exact (loaded le_rfl).2.1
  | processNewBlock _ allowed same => exact height_processNewBlock allowed.1 allowed.2 same

end ChainView

namespace SampleCalls

open ChainView SampleSelection

/-- Block 4, at height 2, makes its branch the best one. -/
def reorganising : NewBlockCall where
  tree := tree
  pindex := 4
  verdict := verdict 9
  moves := [.disconnectTip, .connectTip 3, .connectTip 4]

/-- Block 2, at height 1, is on a fork of the chain that ends in block 4. -/
def stale : NewBlockCall where
  tree := { tree with chainActive := [4, 3, 1], setBlockIndexCandidates := [4] }
  pindex := 2
  verdict := verdict 9

theorem occurs_of_selects {view : ChainView} {call : NewBlockCall} (sound : call.tree.Sound env)
    (accepted : ∀ pindex ∈ call.tree.chainActive, call.verdict.accepts pindex = true)
    (known : call.pindex ∈ call.tree.blocks) (active : call.tree.chainActive = view.chain.reverse)
    (selects : (call.tree.activateBestChain env call.verdict).map (·.chainActive) =
      some (call.moves.foldl move view).chain.reverse) : Occurs env view call := by
  refine ⟨sound, accepted, known, active, fun after selected => ?_⟩
  rw [selected] at selects
  exact Option.some.inj selects

end SampleCalls

open ChainView SampleCalls SampleSelection in
theorem manager_follows_reorganisation : ((start [1, 2]).processNewBlock false reorganising).Follows ∧
    ((start [1, 2]).processNewBlock false reorganising).getHashAtHeight 2 = some 4 := by
  have occurs : Occurs env (start [1, 2]) reorganising :=
    occurs_of_selects (by decide) (by decide) (by decide) (by decide) (by decide)
  have follows :=
    (manager_follows_chain env false _).2 (.processNewBlock (.start [1, 2]) ⟨occurs, by decide⟩)
  exact ⟨follows, follows.hashes 2 4 (by decide)⟩

open ChainView SampleCalls SampleSelection in
/-- A valid block on a shorter fork takes the manager one block back. -/
theorem manager_misses_tip : let view := (start [1, 3, 4]).processNewBlock false stale
    Occurs env (start [1, 3, 4]) stale ∧ view.chain = [1, 3, 4] ∧ view.nBestHeight = 1 ∧
      view.getHashAtHeight 2 = some 0 ∧ ¬ view.Follows := by
  refine ⟨occurs_of_selects (by decide) (by decide) (by decide) (by decide)
    (by decide), by decide, by decide, by decide,
    fun follows => ?_⟩
  have height := follows.height
  revert height
  decide

end Deviant.Masternode
