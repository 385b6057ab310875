/-
**The deliveries of the syncer**: what `syncer/src/actor.rs` with `acks.rs`, `durability.rs` and
`floor.rs` does with a block or a certificate that the resolver brings.

The syncer keeps two archives by height, of finalized blocks and of finalization certificates, and
reports the blocks to the finalizer one height after the other. What is missing is repaired from the
blocks that are there; a floor moves the height that reporting starts from.

A handler is an action on the state that stops where the source panics or leaves its loop. The world
outside answers by `SyncerEnv`: the buffer and the cache of the blocks that are not finalized, the
schedule, the certificate schemes. Each question has a number, so that an answer may change between
two questions. Requests to the resolver, replies and subscriptions are left out.

An archive ignores a block or a certificate for a height that it has. `updates` records what goes to
the application, in its order.
-/

import Mathlib.Data.Prod.Lex
import Summit.Lib.Act
import Summit.Model.Application

namespace Summit

/-- Rounds are compared by their epochs and then by their views. -/
instance : LinearOrder Round :=
  LinearOrder.lift' (fun round => toLex (round.epoch, round.view)) fun one two same => by
    have same := toLex_inj.mp same
    cases one
    cases two
    simp_all

def Finalization.round (finalization : Finalization) : Round :=
  ⟨finalization.epoch, finalization.view⟩

/-- The reply channel of a request. -/
abbrev Mailbox.Responder := Nat

/-- Whether a header's view fits the view it was certified in: a block is certified in its own view,
and the last one of an epoch also in a later one. -/
def headerViewBindsToRound (epocher : DynamicEpocher) (height headerView certifiedView : Nat) :
    Bool :=
  headerView = certifiedView ||
    (epocher.isLastBlockOfEpoch height && decide (headerView < certifiedView))

namespace Syncer

/-! ### Durability -/

/-- The writes that no completed sync covers, by their lowest heights: those made since the last
sync was started, and a batch for each sync that is under way. -/
structure DispatchGate where
  unsynced : Option Nat
  inflight : SortedMap Nat Nat
  nextSeq : Nat

namespace DispatchGate

def defer (gate : DispatchGate) (height : Nat) : DispatchGate :=
  { gate with unsynced := some ((gate.unsynced.map fun lowest => min lowest height).getD height) }

def clear (gate : DispatchGate) : DispatchGate := { gate with unsynced := none, inflight := .empty }

def barrier (gate : DispatchGate) : Option Nat :=
  (gate.inflight.values ++ gate.unsynced.toList).min?

end DispatchGate

/-! ### Acknowledgements -/

structure PendingAck where
  height : Nat
  commitment : Digest

structure PendingAcks where
  current : Option PendingAck
  queue : List PendingAck
  max : Nat

namespace PendingAcks

def clear (acks : PendingAcks) : PendingAcks := { acks with current := none, queue := [] }

def hasCapacity (acks : PendingAcks) : Bool :=
  acks.queue.length < acks.max - (if acks.current.isSome then 1 else 0)

def nextDispatchHeight (acks : PendingAcks) (startHeight : Nat) : Nat :=
  match acks.queue.getLast? with
  | some ack => ack.height + 1
  | none => match acks.current with
    | some ack => ack.height + 1
    | none => startHeight

def enqueue (acks : PendingAcks) (ack : PendingAck) : PendingAcks :=
  if acks.current.isNone then { acks with current := some ack }
  else { acks with queue := acks.queue ++ [ack] }

end PendingAcks

/-! ### The state -/

/-- The processed height and round, and a floor whose block is still missing. -/
structure Floor where
  processedHeight : Nat
  processedRound : Round
  pending : Option Finalization

/-- What goes to the application. -/
inductive Update where
  | finalizedBlock (block : Block) (finalization : Option Finalization)
  | tip (height : Nat) (digest : Digest)

end Syncer

open Syncer

structure Syncer where
  finalizedBlocks : SortedMap Nat Block
  finalizationsByHeight : SortedMap Nat Finalization
  dispatchGate : DispatchGate
  floor : Floor
  pendingAcks : PendingAcks
  recoveryHeight : Nat
  tip : Nat
  pendingNotarizedReports : List Digest
  /-- The number of questions asked. -/
  clock : Nat
  updates : List Update

/-- The world outside, by the number of the question. -/
structure SyncerEnv where
  /-- A block of the buffer or the cache. -/
  bufferOrCache : Nat → Digest → Option Block
  /-- A finalization of the cache. -/
  finalizationFor : Nat → Digest → Option Finalization
  epocher : Nat → DynamicEpocher
  /-- Whether there is a scheme for an epoch. -/
  scheme : Nat → Nat → Bool
  /-- Where the section of a height begins in each archive; pruning leaves sections whole. -/
  blockSection : Nat → Nat
  certificateSection : Nat → Nat
  /-- How many passes, and steps of a pass, a gap repair is followed for. -/
  passes : Nat
  steps : Nat

namespace Syncer

def report (update : Update) (s : Syncer) : Syncer := { s with updates := s.updates ++ [update] }

def ask {A : Type} (answer : Nat → A) : Act Syncer A := do
  let now ← Act.read Syncer.clock
  modify fun s => { s with clock := s.clock + 1 }
  return answer now

theorem exec_ask {A : Type} (answer : Nat → A) (s : Syncer) :
    (ask answer).exec s = (some (answer s.clock), { s with clock := s.clock + 1 }) := rfl

/-! ### The archives -/

/-- `Blocks::put`: the block is kept at its own height. -/
def addBlock (block : Block) (s : Syncer) : Syncer :=
  if s.finalizedBlocks.contains block.height then s
  else { s with finalizedBlocks := s.finalizedBlocks.insert block.height block }

/-- `Certificates::put`. -/
def addCertificate (height : Nat) (finalization : Finalization) (s : Syncer) : Syncer :=
  if s.finalizationsByHeight.contains height then s
  else { s with finalizationsByHeight := s.finalizationsByHeight.insert height finalization }

def addFinalization (height : Nat) (finalization : Option Finalization) (s : Syncer) : Syncer :=
  match finalization with
  | some finalization => s.addCertificate height finalization
  | none => s

def putBlock (block : Block) : Act Syncer Unit := modify (addBlock block)

def putCertificate (height : Nat) (finalization : Option Finalization) : Act Syncer Unit :=
  modify (addFinalization height finalization)

def defer (height : Nat) (s : Syncer) : Syncer :=
  { s with dispatchGate := s.dispatchGate.defer height }

/-- A sync of both archives that is waited for. -/
def syncFinalized : Act Syncer Unit :=
  modify fun s => { s with dispatchGate := s.dispatchGate.clear }

def finalizedPruneCutoff (requested recoveryHeight : Nat) : Nat :=
  min requested (recoveryHeight + 1)

/-- Delete what is below the cutoff, up to the start of its section. -/
def prune (env : SyncerEnv) (height : Nat) (s : Syncer) : Syncer :=
  let cutoff := finalizedPruneCutoff height s.recoveryHeight
  { s with
    finalizedBlocks := s.finalizedBlocks.filter fun entry =>
      min cutoff (env.blockSection cutoff) ≤ entry.1
    finalizationsByHeight := s.finalizationsByHeight.filter fun entry =>
      min cutoff (env.certificateSection cutoff) ≤ entry.1 }

def pruneFinalizedArchives (env : SyncerEnv) (height : Nat) : Act Syncer Unit :=
  modify (prune env height)

/-- The end of the range of heights that starts at `height`, as far as `fuel` reaches. -/
def rangeEnd (blocks : SortedMap Nat Block) : Nat → Nat → Nat
  | 0, height => height
  | fuel + 1, height =>
    if blocks.contains (height + 1) then rangeEnd blocks fuel (height + 1) else height

/-- `next_gap`: the end of the range around a height, and the start of the next range. -/
def nextGap (blocks : SortedMap Nat Block) (height : Nat) : Option Nat × Option Nat :=
  if blocks.contains height then
    let last := rangeEnd blocks blocks.size height
    (some last, (blocks.keys.filter (last < ·)).head?)
  else (none, (blocks.keys.filter (height < ·)).head?)

/-- `find_block`: the buffer, the cache, and the finalized blocks. -/
def findBlock (env : SyncerEnv) (commitment : Digest) : Act Syncer (Option Block) := do
  match ← ask (env.bufferOrCache · commitment) with
  | some block => return some block
  | none => Act.read fun s => s.finalizedBlocks.values.find? fun block => block.digest = commitment

def raise (height : Nat) (commitment : Digest) (s : Syncer) : Syncer :=
  if height > s.tip then { s with tip := height }.report (.tip height commitment) else s

def raiseTip (height : Nat) (commitment : Digest) : Act Syncer Unit :=
  modify (raise height commitment)

/-- The certificate is for the commitment, in a round that fits the block's header. -/
def bindsCertificate (epocher : DynamicEpocher) (commitment : Digest) (block : Block)
    (finalization : Finalization) : Bool :=
  finalization.payload = commitment && block.epoch = finalization.epoch &&
    headerViewBindsToRound epocher block.height block.view finalization.view

/-- Store a block, and a certificate if there is one; whether that was done. -/
def storeFinalization (env : SyncerEnv) (height : Nat) (commitment : Digest) (block : Block)
    (finalization : Option Finalization) : Act Syncer Bool := do
  let s ← get
  let epocher ← ask env.epocher
  if height ≤ s.floor.processedHeight then return false
  else if finalization.any fun finalization =>
      !bindsCertificate epocher commitment block finalization then
    return false
  -- an archive ignores a second block, which must not come with a new certificate
  else if (s.finalizedBlocks.find? height).any fun existing => existing.digest ≠ commitment then
    return false
  else if (s.finalizationsByHeight.find? height).any fun existing =>
      existing.payload ≠ commitment then
    return false
  else do
    putBlock block
    putCertificate height finalization
    modify (defer height)
    raiseTip height commitment
    return true

/-! ### Progress -/

def updateProcessedHeight (height : Nat) (s : Syncer) : Syncer :=
  { s with floor := { s.floor with processedHeight := height } }

def updateProcessedRoundFloor (height : Nat) (round : Round) : Act Syncer Unit :=
  modify fun s =>
    if height > s.floor.processedHeight ∨ round ≤ s.floor.processedRound then s
    else { s with floor := { s.floor with processedRound := round } }

/-- The round of a certificate, if there is one. -/
def updateRoundOf (height : Nat) : Option Finalization → Act Syncer Unit
  | none => pure ()
  | some finalization => updateProcessedRoundFloor height finalization.round

/-! ### Reports -/

/-- `Update::FinalizedBlock`, and its acknowledgement in flight. -/
def send (block : Block) (finalization : Option Finalization) (s : Syncer) : Syncer :=
  { s with pendingAcks := s.pendingAcks.enqueue ⟨block.height, block.digest⟩ }.report
    (.finalizedBlock block finalization)

/-- The height that is reported next. -/
def nextHeight (s : Syncer) : Nat :=
  s.pendingAcks.nextDispatchHeight (s.floor.processedHeight + 1)

/-- The next block that is due, and whether it was reported. -/
def dispatchNext (epocher : DynamicEpocher) (barrier : Option Nat) : Act Syncer Bool := do
  let s ← get
  if !s.pendingAcks.hasCapacity then return false
  else if barrier.any fun lowest => lowest ≤ s.nextHeight then return false
  else match s.finalizedBlocks.find? s.nextHeight with
    | none => return false
    | some block =>
      if block.height ≠ s.nextHeight then failure
      else if block.digest ∈ s.pendingNotarizedReports then return false
      -- the last block of an epoch goes with its certificate
      else if epocher.isLastBlockOfEpoch s.nextHeight then
        match s.finalizationsByHeight.find? s.nextHeight with
        | none => return false
        | some finalization =>
          if finalization.payload ≠ block.digest then return false
          else do
            modify (send block (some finalization))
            return true
      else do
        modify (send block none)
        return true

def dispatchLoop (env : SyncerEnv) (barrier : Option Nat) : Nat → Act Syncer Unit
  | 0 => pure ()
  | fuel + 1 => do
    let epocher ← ask env.epocher
    if ← dispatchNext epocher barrier then dispatchLoop env barrier fuel
    else pure ()

/-- `try_dispatch_blocks`: the number of reports in flight bounds the loop. -/
def tryDispatchBlocks (env : SyncerEnv) : Act Syncer Unit := do
  let s ← get
  if s.floor.pending.isSome then pure ()
  else dispatchLoop env s.dispatchGate.barrier s.pendingAcks.max

/-! ### Gap repair -/

/-- Walk from a block down to `gapStart` along the parents that are there, and store them. The
result says whether something was stored, and whether the walk reached its end. -/
def walkGap (env : SyncerEnv) (gapStart : Nat) : Nat → Block → Bool → Act Syncer (Bool × Bool)
  | 0, _, _ => failure
  | steps + 1, cursor, wrote =>
    if cursor.height > gapStart then do
      match ← findBlock env cursor.parent with
      | none => return (wrote, false)
      | some block => do
        let finalization ← ask (env.finalizationFor · cursor.parent)
        let stored ← storeFinalization env block.height cursor.parent block finalization
        walkGap env gapStart steps block (wrote || stored)
    else return (wrote, true)

/-- One gap after the other, until there is none or a block is missing. -/
def repairLoop (env : SyncerEnv) (start : Nat) : Nat → Bool → Act Syncer Bool
  | 0, _ => failure
  | passes + 1, wrote => do
    let s ← get
    match nextGap s.finalizedBlocks start with
    | (_, none) => return wrote
    | (gapStart, some gapEnd) =>
      match s.finalizedBlocks.find? gapEnd with
      | none => failure
      | some cursor => do
        let lowest := (gapStart.map (· + 1)).getD start
        let (wrote, complete) ← walkGap env lowest env.steps cursor wrote
        if complete then repairLoop env start passes wrote else return wrote

def tryRepairGaps (env : SyncerEnv) : Act Syncer Bool := do
  let s ← get
  if s.floor.pending.isSome then return false
  else repairLoop env (s.floor.processedHeight + 1) env.passes false

/-- Repair, and wait until what was written is durable. -/
def repairAndSync (env : SyncerEnv) : Act Syncer Unit := do
  if ← tryRepairGaps env then syncFinalized else pure ()

/-! ### Floors -/

def takeAnchor (s : Syncer) : Syncer := { s with floor := { s.floor with pending := none } }

def takePendingAnchor : Act Syncer Unit := modify takeAnchor

/-- The processed height moves to a floor, and what is in flight is dropped. -/
def move (height : Nat) (s : Syncer) : Syncer :=
  { s.updateProcessedHeight height with pendingAcks := s.pendingAcks.clear }

/-- Take a block for the pending floor, if it is its block; whether it was. -/
def applyFloorAnchor (env : SyncerEnv) (block : Block) : Act Syncer Bool := do
  let s ← get
  match s.floor.pending with
  | none => return false
  | some finalization =>
    if finalization.payload ≠ block.digest then return false
    else if block.height ≤ s.floor.processedHeight then do
      takePendingAnchor
      updateProcessedRoundFloor block.height finalization.round
      repairAndSync env
      tryDispatchBlocks env
      return true
    else do
      takePendingAnchor
      putBlock block
      putCertificate block.height (some finalization)
      syncFinalized
      raiseTip block.height block.digest
      -- the floor's block is reported next
      modify (move (block.height - 1))
      updateProcessedRoundFloor (block.height - 1) finalization.round
      pruneFinalizedArchives env block.height
      repairAndSync env
      tryDispatchBlocks env
      return true

/-! ### The resolver -/

/-- What the resolver brings; a value that does not decode is `none`. A block comes with whether it
was asked for as one of the finalized chain. -/
inductive Delivery where
  | block (commitment : Digest) (value : Option Block) (forFinalized : Bool)
  | finalized (height : Nat) (value : Option (Finalization × Block))
  | notarized (round : Round) (value : Option (Finalization × Block))

/-- A delivery whose certificate is still to be verified. -/
inductive PendingVerification where
  | notarized (notarization : Finalization) (block : Block) (response : Mailbox.Responder)
  | finalized (finalization : Finalization) (block : Block) (response : Mailbox.Responder)

/-- `Key::Block`: the block is taken at once. -/
def deliverBlock (env : SyncerEnv) (commitment : Digest) (block : Block) (forFinalized : Bool) :
    Act Syncer Unit := do
  if block.digest ≠ commitment then pure ()
  else if ← applyFloorAnchor env block then pure ()
  else do
    let finalization ← ask (env.finalizationFor · commitment)
    updateRoundOf block.height finalization
    if finalization.isSome || forFinalized then do
      let _ ← storeFinalization env block.height commitment block finalization
    else pure ()

/-- A delivery is checked for its form; those with a certificate are collected. -/
def handleDeliver (env : SyncerEnv) (delivery : Delivery) (response : Mailbox.Responder) :
    Act Syncer (Option PendingVerification) :=
  match delivery with
  | .block commitment value forFinalized =>
    match value with
    | none => return none
    | some block => do
      deliverBlock env commitment block forFinalized
      return none
  | .finalized height value => do
    match (← ask env.epocher).containing height with
    | none => return none
    | some bounds =>
      if !(← ask (env.scheme · bounds.epoch)) then return none
      else match value with
        | none => return none
        | some (finalization, block) => do
          let epocher ← ask env.epocher
          if block.height = height ∧ finalization.payload = block.digest ∧
              finalization.epoch = bounds.epoch ∧ block.epoch = finalization.epoch ∧
              headerViewBindsToRound epocher block.height block.view finalization.view then
            return some (.finalized finalization block response)
          else return none
  | .notarized round value => do
    if !(← ask (env.scheme · round.epoch)) then return none
    else match value with
      | none => return none
      | some (notarization, block) => do
        let epocher ← ask env.epocher
        if notarization.round = round ∧ notarization.payload = block.digest ∧
            block.epoch = notarization.epoch ∧
            headerViewBindsToRound epocher block.height block.view notarization.view then
          return some (.notarized notarization block response)
        else return none

end Syncer

end Summit
