/-
**The epoch schedule** of `dynamic_epocher.rs`.

A schedule is a list of segments, each an epoch length from a start epoch and height on, and the
current epoch; it is never empty and no segment has length zero. Heights and epochs whose
computation leaves 64 bits have no bounds. The live handle is shared by interior mutability in the
source; here it is the value the state holds.
-/

import Summit.Lib.Reader
import Summit.Model.Types

namespace Summit

open Bytes

/-- `u64::checked_add`. -/
def checkedAdd (a b : Nat) : Option Nat := if a + b ≤ u64Max then some (a + b) else none

/-- `u64::checked_mul`. -/
def checkedMul (a b : Nat) : Option Nat := if a * b ≤ u64Max then some (a * b) else none

structure Segment where
  startEpoch : Nat
  startHeight : Nat
  length : Nat
  deriving DecidableEq

structure DynamicEpocher where
  segments : List Segment
  currentEpoch : Nat
  nonempty : segments ≠ []
  positive : ∀ segment ∈ segments, 0 < segment.length

/-- The epoch a height lies in, with the epoch's first and last height. -/
structure EpochInfo where
  epoch : Nat
  height : Nat
  first : Nat
  last : Nat
  deriving DecidableEq

theorem ten_pos : 0 < 10 := by decide

namespace DynamicEpocher

theorem ext {a b : DynamicEpocher} (same : a.segments = b.segments)
    (sameEpoch : a.currentEpoch = b.currentEpoch) : a = b := by
  cases a
  cases b
  simp only at same sameEpoch
  subst same sameEpoch
  rfl

instance : DecidableEq DynamicEpocher := fun a b =>
  decidable_of_iff (a.segments = b.segments ∧ a.currentEpoch = b.currentEpoch)
    ⟨fun ⟨one, two⟩ => ext one two, fun same => by subst same; exact ⟨rfl, rfl⟩⟩

/-- The schedule of a genesis epoch length. -/
def new (genesisLength : Nat) (positive : 0 < genesisLength) : DynamicEpocher where
  segments := [{ startEpoch := 0, startHeight := 0, length := genesisLength }]
  currentEpoch := 0
  nonempty := by simp
  positive := by simpa using positive

def advanceEpoch (epocher : DynamicEpocher) (epoch : Nat) : DynamicEpocher :=
  { epocher with currentEpoch := epoch }

/-- First and last height of an epoch under the latest segment that starts no later. -/
def bounds (segments : List Segment) (epoch : Nat) : Option (Nat × Nat) := do
  let segment ← segments.reverse.find? fun segment => segment.startEpoch ≤ epoch
  let relativeStart ← checkedMul (epoch - segment.startEpoch) segment.length
  let first ← checkedAdd segment.startHeight relativeStart
  let last ← checkedAdd first (segment.length - 1)
  return (first, last)

/-- First and last height of an epoch that is at most the one after the current epoch. -/
def epochBounds (epocher : DynamicEpocher) (epoch : Nat) : Option (Nat × Nat) :=
  if epoch > epocher.currentEpoch + 1 then none else bounds epocher.segments epoch

def first (epocher : DynamicEpocher) (epoch : Nat) : Option Nat :=
  (epocher.epochBounds epoch).map Prod.fst

def last (epocher : DynamicEpocher) (epoch : Nat) : Option Nat :=
  (epocher.epochBounds epoch).map Prod.snd

/-- The epoch that contains `height`, if it is at most the one after the current epoch. -/
def containing (epocher : DynamicEpocher) (height : Nat) : Option EpochInfo := do
  let segment ← epocher.segments.reverse.find? fun segment => segment.startHeight ≤ height
  let epoch ← checkedAdd segment.startEpoch ((height - segment.startHeight) / segment.length)
  if epoch > epocher.currentEpoch + 1 then none
  else do
    let (first, last) ← bounds epocher.segments epoch
    return { epoch, height, first, last }

theorem append_ne_nil {α : Type} (l : List α) (a : α) : l ++ [a] ≠ [] := by simp

/-- Register a new epoch length from `currentEpoch + 2` on; `none` when the source returns an
error. A length already registered for that epoch is overwritten. -/
def updateLength (epocher : DynamicEpocher) (newLength : Nat) (positive : 0 < newLength) :
    Option DynamicEpocher :=
  match checkedAdd epocher.currentEpoch 2 with
  | none => none
  | some targetEpoch =>
    let lastSegment := epocher.segments.getLast epocher.nonempty
    if targetEpoch < lastSegment.startEpoch then none
    else match bounds epocher.segments targetEpoch with
      | none => none
      | some (startHeight, _) =>
        if lastSegment.startEpoch = targetEpoch then
          some { epocher with
            segments := epocher.segments.dropLast ++ [{ lastSegment with length := newLength }]
            nonempty := append_ne_nil _ _
            positive := by
              intro segment member
              rcases List.mem_append.mp member with old | new
              · exact epocher.positive segment (List.dropLast_subset _ old)
              · rw [List.mem_singleton.mp new]
                exact positive }
        else
          some { epocher with
            segments := epocher.segments ++
              [{ startEpoch := targetEpoch, startHeight, length := newLength }]
            nonempty := append_ne_nil _ _
            positive := by
              intro segment member
              rcases List.mem_append.mp member with old | new
              · exact epocher.positive segment old
              · rw [List.mem_singleton.mp new]
                exact positive }

/-- `is_last_block_of_epoch`. -/
def isLastBlockOfEpoch (epocher : DynamicEpocher) (height : Nat) : Bool :=
  (epocher.containing height).any fun info => info.last = info.height

/-- `is_penultimate_block_of_epoch`. -/
def isPenultimateBlockOfEpoch (epocher : DynamicEpocher) (height : Nat) : Bool :=
  (epocher.containing height).any fun info => info.last = height + 1

/-! ### Codec -/

def Segment.encode (segment : Segment) : List UInt8 :=
  beBytes 8 segment.startEpoch ++ beBytes 8 segment.startHeight ++ beBytes 8 segment.length

def encode (epocher : DynamicEpocher) : List UInt8 :=
  beBytes 8 epocher.currentEpoch ++ beBytes 4 epocher.segments.length ++
    epocher.segments.flatMap Segment.encode

def Segment.read : Reader { segment : Segment // 0 < segment.length } := do
  let startEpoch ← Reader.be 8
  let startHeight ← Reader.be 8
  let length ← Reader.be 8
  if positive : 0 < length then
    return ⟨{ startEpoch, startHeight, length }, positive⟩
  else
    Reader.fail (.invalid "DynamicEpocher" "zero-length segment")

def read : Reader DynamicEpocher := do
  let currentEpoch ← Reader.be 8
  let segmentsLen ← Reader.be 4
  let segments ← Reader.many Segment.read segmentsLen
  -- the list is empty exactly when the length read is zero, which the source refuses
  if nonempty : segments ≠ [] then
    return {
      segments := segments.map Subtype.val
      currentEpoch
      nonempty := fun none => nonempty (List.map_eq_nil_iff.mp none)
      positive := by
        intro segment member
        obtain ⟨found, -, rfl⟩ := List.mem_map.mp member
        exact found.property }
  else
    Reader.fail (.invalid "DynamicEpocher" "no segments")

end DynamicEpocher

end Summit
