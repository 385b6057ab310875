/-
**The array-based Merkle tree** of `ssz_tree.rs` and the leaf hashes of `ssz_hash.rs`.

Nodes are read with a default of zero and written only inside the array. A loop of the source that
recomputes nodes is the list of the indices it visits, in its order, and `rehashAll` over that list;
`rehash_from` and `rehash_from_position` also skip an index whose right child lies past the end.
-/

import Summit.Lib.HeapBlocks
import Summit.Model.Types

set_option linter.unusedSectionVars false

namespace Summit

open Bytes HeapTree

/-- Complete binary tree in one array: node `1` is the root, the leaves start at `capacity`. -/
structure SszTree where
  nodes : List Bytes32
  capacity : Nat
  depth : Nat
  deriving DecidableEq

/-- The zero chunk. -/
def zeroChunk : Bytes32 := FixedBytes.zero 32

section Trees

variable [Crypto]

/-- `ZERO_HASHES`: the roots of trees whose leaves are all zero. -/
def zeroHashes : Nat → Bytes32
  | 0 => zeroChunk
  | d + 1 => Crypto.hash32Concat (zeroHashes d) (zeroHashes d)

namespace SszTree

def new (numLeaves : Nat) : SszTree :=
  let capacity := max (nextPowerOfTwo numLeaves) 1
  let depth := Nat.log2 capacity
  let nodes := (List.range' 1 depth).foldl (fun nodes d =>
      (List.range' (capacity >>> d) ((capacity >>> (d - 1)) - (capacity >>> d))).foldl
        (fun nodes i => nodes.set i (zeroHashes d)) nodes)
    (List.replicate (2 * capacity) zeroChunk)
  { nodes, capacity, depth }

/-- Any node by its 1-based index. -/
def getNode (tree : SszTree) (i : Nat) : Bytes32 := node zeroChunk tree.nodes i

def root (tree : SszTree) : Bytes32 :=
  if tree.capacity = 0 then zeroChunk else tree.getNode 1

def getLeaf (tree : SszTree) (leafIndex : Nat) : Bytes32 :=
  tree.getNode (tree.capacity + leafIndex)

/-- Recompute the listed nodes from their children. -/
def rehash (tree : SszTree) (indices : List Nat) : SszTree :=
  { tree with nodes := rehashAll zeroChunk Crypto.hash32Concat tree.nodes indices }

/-- Recompute the listed nodes whose right child lies inside the array. -/
def rehashInside (tree : SszTree) (indices : List Nat) : SszTree :=
  tree.rehash (indices.filter fun i => i * 2 + 1 < tree.nodes.length)

def setLeafNoRehash (tree : SszTree) (leafIndex : Nat) (value : Bytes32) : SszTree :=
  { tree with nodes := tree.nodes.set (tree.capacity + leafIndex) value }

/-- Set a leaf and rehash its path to the root. -/
def setLeaf (tree : SszTree) (leafIndex : Nat) (value : Bytes32) : SszTree :=
  let i := tree.capacity + leafIndex
  (tree.setLeafNoRehash leafIndex value).rehash (pathUp i i)

/-- Rehash every node from the level that starts at `startIndex` up to the root. -/
def rehashFrom (tree : SszTree) (startIndex : Nat) : SszTree :=
  tree.rehashInside (levelsFrom startIndex startIndex startIndex)

/-- Rehash the inner levels of the block of `blockSize` leaves at `slot`. -/
def rehashBlock (tree : SszTree) (slot blockSize : Nat) : SszTree :=
  tree.rehash (blockIndices tree.capacity slot blockSize)

/-- Rehash from `fromNode` to the end of its level, and so on for every level above. -/
def rehashFromPosition (tree : SszTree) (levelStart fromNode : Nat) : SszTree :=
  if levelStart = 0 then tree
  else tree.rehashInside (levelsFrom levelStart levelStart fromNode)

/-- Rehash the nodes above the blocks, from the parent of the root of the block at `slot` on. -/
def rehashAboveBlock (tree : SszTree) (slot blockSize : Nat) : SszTree :=
  let blockRootLevel := tree.capacity / blockSize
  tree.rehashFromPosition (blockRootLevel / 2) ((blockRootLevel + slot) / 2)

/-- Shift `count` blocks from `fromSlot` on right by one block, at every level of the blocks. -/
def shiftBlocksRight (tree : SszTree) (fromSlot count blockSize : Nat) : SszTree :=
  if count = 0 then tree
  else { tree with
    nodes := (List.range (Nat.log2 blockSize + 1)).foldl (fun nodes level =>
      shiftLevelRight zeroChunk (tree.capacity >>> level) fromSlot count (blockSize >>> level)
        nodes) tree.nodes }

/-- Shift `count` blocks from `fromSlot + 1` on left by one block, at every level of the blocks. -/
def shiftBlocksLeft (tree : SszTree) (fromSlot count blockSize : Nat) : SszTree :=
  if count = 0 then tree
  else { tree with
    nodes := (List.range (Nat.log2 blockSize + 1)).foldl (fun nodes level =>
      shiftLevelLeft zeroChunk (tree.capacity >>> level) fromSlot count (blockSize >>> level)
        nodes) tree.nodes }

/-- A zeroed tree of `newCapacity` leaves with the first `kept` leaves of `tree`, rehashed. -/
def resize (tree : SszTree) (newCapacity kept : Nat) : SszTree :=
  let nodes := List.replicate newCapacity zeroChunk ++ (tree.nodes.drop tree.capacity).take kept ++
    List.replicate (newCapacity - kept) zeroChunk
  let resized : SszTree := { nodes, capacity := newCapacity, depth := Nat.log2 newCapacity }
  resized.rehashFrom (newCapacity / 2)

/-- Grow to at least `minLeaves` leaves; no change when there is room. -/
def grow (tree : SszTree) (minLeaves : Nat) : SszTree :=
  if minLeaves ≤ tree.capacity then tree
  else tree.resize (nextPowerOfTwo minLeaves) tree.capacity

/-- Shrink to the capacity for `minLeaves` leaves; no change when that is not smaller. -/
def shrink (tree : SszTree) (minLeaves : Nat) : SszTree :=
  let newCapacity := nextPowerOfTwo (max minLeaves 1)
  if newCapacity ≥ tree.capacity then tree else tree.resize newCapacity newCapacity

end SszTree

/-! ### Leaf hashes -/

/-- `hash_tree_root` of a `u64`: its little-endian bytes, zero-padded. -/
def hashU64 (value : Nat) : Bytes32 := FixedBytes.padded 32 (leBytes 8 value)

/-- `hash_tree_root` of a `u32`. -/
def hashU32 (value : Nat) : Bytes32 := FixedBytes.padded 32 (leBytes 4 value)

/-- `hash_tree_root` of a one-byte enumeration. -/
def hashU8 (value : UInt8) : Bytes32 := FixedBytes.padded 32 [value]

/-- `hash_tree_root` of an address. -/
def hashAddress (address : Address) : Bytes32 := FixedBytes.padded 32 address.val

/-- `SHA256(tree_root || little_endian_u64(length))`. -/
def mixInLength (root : Bytes32) (length : Nat) : Bytes32 :=
  Crypto.hash32Concat root (hashU64 length)

/-- The hashes of the consecutive pairs of a layer. -/
def hashPairs : List Bytes32 → List Bytes32
  | left :: right :: rest => Crypto.hash32Concat left right :: hashPairs rest
  | _ => []

/-- Hash layer after layer until one chunk is left. -/
def merkleizeLayers : Nat → List Bytes32 → Bytes32
  | 0, layer => layer.headD zeroChunk
  | fuel + 1, layer =>
    if 1 < layer.length then merkleizeLayers fuel (hashPairs layer) else layer.headD zeroChunk

/-- Merkle root of the chunks padded to a power of two with zero chunks. -/
def merkleize (chunks : List Bytes32) : Bytes32 :=
  if chunks = [] then zeroHashes 0
  else
    let n := nextPowerOfTwo chunks.length
    merkleizeLayers n (chunks ++ List.replicate (n - chunks.length) zeroChunk)

/-- `hash_tree_root` of a BLS key: two chunks. -/
def hashBlsKey (key : BlsPublicKey) : Bytes32 :=
  Crypto.hash32Concat (key.val.slice 0 32) (FixedBytes.padded 32 (key.val.slice 32 16).val)

def hashFixedBytes64 (bytes : FixedBytes 64) : Bytes32 :=
  Crypto.hash32Concat (bytes.slice 0 32) (bytes.slice 32 32)

def hashFixedBytes96 (bytes : FixedBytes 96) : Bytes32 :=
  merkleize [bytes.slice 0 32, bytes.slice 32 32, bytes.slice 64 32]

/-- An SSZ byte list: 32-byte chunks, merkleized, with the byte length mixed in. -/
def hashByteList (bytes : List UInt8) : Bytes32 :=
  let packed := if bytes = [] then [zeroChunk] else (chunks 32 bytes).map (FixedBytes.padded 32)
  mixInLength (merkleize packed) bytes.length

end Trees

end Summit
