import Deviant.Masternode.Pings

namespace Deviant.Masternode.Broadcast

open Primitives CMasternodeMan

/-! A masternode is marked when a block that spends its collateral is connected. -/

def CMasternodeMan.setSpent (man : CMasternodeMan) (op : COutPoint) : CMasternodeMan :=
  match man.find op with
  | none => man
  | some mn => man.set op { mn with fCollateralSpent := true }

def CMasternodeMan.checkSpentCollaterals (man : CMasternodeMan) (vtx : List CTransaction) :
    CMasternodeMan :=
  vtx.foldl (fun man tx => tx.vin.foldl (fun man input => man.setSpent input.prevout) man) man

def spentBy (vtx : List CTransaction) :
    List COutPoint := vtx.flatMap fun tx => tx.vin.map CTxIn.prevout

/-- The list of a node, and for each outpoint the blocks of the active chain that were connected
since its masternode was added, the last one first. -/
structure CollateralNode where
  man : CMasternodeMan
  since : COutPoint → List (List CTransaction) := fun _ => []

/-- What happens to the list. A copy of a masternode gets in by `add`; copies never take the mark
over. -/
inductive CollateralEvent where
  | connectTip (vtx : List CTransaction)
  | disconnectTip
  | broadcast (event : BroadcastEvent)
  /-- `UpdateMasternodeList`, which the RPCs call that start a masternode or relay a broadcast. -/
  | updateMasternodeList (event : BroadcastEvent)
  | ping (event : PingEvent)
  | add (node : MasternodeNode) (mn : CMasternode)
  | remove (op : COutPoint)

namespace CollateralNode

section

variable (state : CollateralNode)

def put (result : CMasternodeMan × Option CMasternode) : CollateralNode where
  man := result.1
  since := fun op => if result.2.map CMasternode.prevout = some op then [] else state.since op

/-- `DisconnectTip` does not touch the list. -/
def step : CollateralEvent → Option CollateralNode
  | .connectTip vtx => some ⟨state.man.checkSpentCollaterals vtx, fun op => vtx :: state.since op⟩
  | .disconnectTip => some { state with since := fun op => (state.since op).tail }
  | .broadcast event => (processMNBroadcast state.man event.node event.mnb).map state.put
  | .updateMasternodeList event => some (state.put (match state.man.find event.mnb.prevout with
    | none => Broadcast.add event.node state.man { event.mnb with fCollateralSpent := false }
    | some mn => (updateFromNewBroadcast event.node state.man mn event.mnb, none)))
  | .ping event => some { state with man := (event.checkAndUpdate { man := state.man }).2.man }
  | .add node mn =>
    some (state.put (Broadcast.add node state.man { mn with fCollateralSpent := false }))
  | .remove op =>
    some { state with man := { state.man with mapMasternodes := state.man.mapMasternodes.erase op }
      }

/-- A block that is taken off spends no collateral of a masternode that was added before the block
was connected. -/
def Harmless (event : CollateralEvent) : Prop :=
  event = .disconnectTip → ∀ op mn vtx rest, state.man.find op = some mn →
    state.since op = vtx :: rest → op ∉ spentBy vtx

inductive Reached (start : CollateralNode) : CollateralNode → Prop
  | start : Reached start start
  | step {state after : CollateralNode} {event : CollateralEvent} (reached : Reached start state)
      (harmless : state.Harmless event) (ran : state.step event = some after) : Reached start after

/-- The marked masternodes are those whose collateral was spent since they were added. -/
def Marked : Prop :=
  ∀ op mn, state.man.find op = some mn →
    (mn.fCollateralSpent = true ↔ ∃ vtx ∈ state.since op, op ∈ spentBy vtx)

end

end CollateralNode

variable {man next : CMasternodeMan}

theorem Descends.mark (descends : Descends identity man next) :
    Descends CMasternode.fCollateralSpent man next := by
  intro op mn found
  obtain ⟨old, before, same⟩ := descends op mn found
  exact ⟨old, before, congrArg (fun identity => identity.2.2) same⟩

theorem find_setSpent (op : COutPoint) : (man.setSpent op).find other =
    (man.find other).map fun mn =>
      { mn with fCollateralSpent := mn.fCollateralSpent || decide (other = op) } := by
  by_cases same : other = op
  · subst same
    cases found : man.find other with
    | none => simp [setSpent, found]
    | some mn => simp [setSpent, found, find_set]
  · cases found : man.find op with
    | none => simp [setSpent, found, same]
    | some mn => simp [setSpent, found, find_set, same]

theorem find_foldl_setSpent (ops : List COutPoint) : (ops.foldl setSpent man).find op =
    (man.find op).map fun mn =>
      { mn with fCollateralSpent := mn.fCollateralSpent || decide (op ∈ ops) } := by
  induction ops generalizing man with
  | nil => simp
  | cons first rest ih =>
    rw [List.foldl_cons, ih, find_setSpent, Option.map_map]
    simp [Function.comp_def, Bool.or_assoc]

theorem find_checkSpentCollaterals (vtx : List CTransaction) :
      (man.checkSpentCollaterals vtx).find op = (man.find op).map fun mn =>
        { mn with fCollateralSpent := mn.fCollateralSpent || decide (op ∈ spentBy vtx) } := by
  have flat : man.checkSpentCollaterals vtx = (spentBy vtx).foldl setSpent man := by
    simp [checkSpentCollaterals, spentBy, List.foldl_flatMap, List.foldl_map]
  rw [flat, find_foldl_setSpent]

namespace CollateralNode

variable {state after : CollateralNode}

theorem Marked.connectTip (marked : state.Marked) :
    Marked ⟨state.man.checkSpentCollaterals vtx, fun op => vtx :: state.since op⟩ := by
  intro op mn found
  rw [find_checkSpentCollaterals] at found
  obtain ⟨old, before, rfl⟩ := Option.map_eq_some_iff.mp found
  have known := marked op old before
  simp only [Bool.or_eq_true, decide_eq_true_eq, known, List.exists_mem_cons_iff]
  exact or_comm

theorem Marked.disconnectTip (marked : state.Marked) (harmless : state.Harmless .disconnectTip) :
    Marked { state with since := fun op => (state.since op).tail } := by
  intro op mn found
  rw [marked op mn found]
  cases blocks : state.since op with
  | nil => simp [blocks]
  | cons vtx rest => simp [blocks, harmless rfl op mn vtx rest found blocks]

/-- Entries that stay have their mark, and only the entry that is added begins anew. -/
theorem Marked.kept (marked : state.Marked)
    (descends : Descends CMasternode.fCollateralSpent state.man next) :
    Marked ⟨next, state.since⟩ := by
  intro op mn found
  obtain ⟨old, before, mark⟩ := descends op mn found
  rw [← mark]
  exact marked op old before

theorem Marked.added (marked : state.Marked)
    (descends : Descends CMasternode.fCollateralSpent state.man next)
    (unmarked : mn.fCollateralSpent = false) :
    Marked (state.put (next.set mn.prevout mn, some mn)) := by
  intro op entry found
  rw [put, find_set] at found
  by_cases own : op = mn.prevout
  · rw [if_pos own, Option.some.injEq] at found
    simp [put, own, ← found, unmarked]
  · rw [if_neg own] at found
    have other : ¬mn.prevout = op := fun same => own same.symm
    simp only [put, Option.map_some, Option.some.injEq, other, if_false]
    exact marked.kept descends op entry found

theorem Marked.add (marked : state.Marked) (unmarked : mn.fCollateralSpent = false) :
    Marked (state.put (Broadcast.add node state.man mn)) := by
  unfold Broadcast.add
  split
  · exact marked.added (.refl) unmarked
  · exact marked

theorem Marked.updateMasternodeList (marked : state.Marked)
    (ran : state.step (.updateMasternodeList event) = some after) : after.Marked := by
  cases ran
  cases found : state.man.find event.mnb.prevout with
  | none => exact marked.add rfl
  | some mn => exact marked.kept (descends_updateFromNewBroadcast (fun _ _ => rfl) found rfl)

theorem Marked.ping (marked : state.Marked) (ran : state.step (.ping event) = some after) :
    after.Marked := by
  cases ran
  rcases event.checkAndUpdate_cases { man := state.man } with same | ⟨mn, found, -, -, -, stored⟩
  · rw [same]
    exact marked
  · rw [stored]
    exact marked.kept (Descends.refl.set found rfl)

theorem Marked.step (marked : state.Marked) (harmless : state.Harmless event)
    (ran : state.step event = some after) :
    after.Marked := by
  cases event with
  | connectTip vtx =>
    cases ran
    exact marked.connectTip
  | disconnectTip =>
    cases ran
    exact marked.disconnectTip harmless
  | broadcast event =>
    obtain ⟨⟨man, added⟩, processed, rfl⟩ := Option.map_eq_some_iff.mp ran
    cases (processMNBroadcast_result processed).1 with
    | kept descends => exact marked.kept descends.mark
    | added descends _ _ unmarked _ => exact marked.added descends.mark unmarked
  | updateMasternodeList event => exact marked.updateMasternodeList ran
  | ping event => exact marked.ping ran
  | add node mn =>
    cases ran
    exact marked.add rfl
  | remove op =>
    cases ran
    exact marked.kept descends_erase

/-- From any list without marks on: as long as no block is taken off that spends the collateral of a
masternode added before it, the marked masternodes are those whose collateral is spent in a block
connected since they were added. -/
theorem marks_follow_chain (man : CMasternodeMan)
    (unmarked : ∀ op mn, man.find op = some mn → mn.fCollateralSpent = false)
    (state : CollateralNode) (reached : Reached { man := man } state) : state.Marked := by
  induction reached with
  | start =>
    intro op mn found
    simp [unmarked op mn found]
  | step _ harmless ran ih => exact ih.step harmless ran

/-! A block that spends the collateral is connected, and then taken off. -/

def spendingBlock :
    List CTransaction := [{ hash := 9, nVersion := 1, vin := [⟨⟨7, 0⟩, [], 0⟩], vout := [] }]

def sampleRun (events : List CollateralEvent) : Option CollateralNode :=
  events.foldlM step { man := {} }

theorem marks_follow_connected_block :
    ∃ state, sampleRun [.broadcast (sampleBroadcast 0), .connectTip spendingBlock] = some state ∧
      state.Marked ∧ ((state.man.find ⟨7, 0⟩).map CMasternode.fCollateralSpent) = some true :=
  ⟨_, rfl, marks_follow_chain {} (fun _ _ found => by cases found) _
    (@Reached.step _ _ _ (.connectTip spendingBlock)
      (@Reached.step _ _ _ (.broadcast (sampleBroadcast 0)) .start
      nofun rfl) nofun rfl), rfl⟩

theorem mark_outlives_block :
    ∃ state, sampleRun [.broadcast (sampleBroadcast 0), .connectTip spendingBlock,
      .disconnectTip] = some state ∧
      ((state.man.find ⟨7, 0⟩).map CMasternode.fCollateralSpent) = some true ∧
      state.since ⟨7, 0⟩ = [] :=
  ⟨_, rfl, rfl, rfl⟩

end CollateralNode

end Deviant.Masternode.Broadcast
