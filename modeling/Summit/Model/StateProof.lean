/-
**Merkle proofs of the state**: proof generation and verification of `ssz_state_tree.rs` and
`ssz_tree.rs`.

A proof names a node by its generalized index, the path from the root in binary with a leading one,
and carries the siblings from the node up. Indices are `u64`, so the bound is a field of the proof
and an index is computed modulo `2 ^ 64`. A proof of an item or of a field of an item is generated
in the same way in every collection: the siblings in the subtree, the length, the siblings in the
top tree.
-/

import Summit.Model.ConsensusState

set_option linter.unusedSectionVars false

namespace Summit

open Bytes HeapTree

section Proofs

variable [Crypto]

/-! ### Branches in one tree -/

namespace SszTree

/-- The siblings of a node and of its ancestors, over `levels` levels. -/
def siblings (tree : SszTree) : Nat → Nat → List Bytes32
  | 0, _ => []
  | levels + 1, idx => tree.getNode (idx ^^^ 1) :: tree.siblings levels (idx / 2)

def generateProof (tree : SszTree) (leafIndex : Nat) : List Bytes32 :=
  tree.siblings tree.depth (tree.capacity + leafIndex)

/-- The loop runs while the index is above one, so as often as the index has bits below its
highest. -/
def generateProofFromNode (tree : SszTree) (nodeIndex : Nat) : List Bytes32 :=
  tree.siblings (Nat.log2 nodeIndex) nodeIndex

/-- Verify the siblings of the node at a generalized index. -/
def verifyProofGindex (root : Bytes32) (gindex : Nat) (leafValue : Bytes32)
    (proof : List Bytes32) : Bool :=
  if gindex = 0 then false
  else if proof.length ≠ Nat.log2 gindex then false
  else
    let reached := proof.foldl (fun (state : Bytes32 × Nat) sibling =>
        (if state.2 % 2 = 0 then Crypto.hash32Concat state.1 sibling
          else Crypto.hash32Concat sibling state.1, state.2 / 2))
      (leafValue, gindex)
    reached.2 = 1 && reached.1 = root

end SszTree

/-! ### Proofs of the state -/

structure SszProof where
  /-- Generalized index of the leaf in the full state tree. -/
  gindex : Nat
  leaf : Bytes32
  /-- Sibling hashes from the leaf to the root. -/
  branch : List Bytes32
  gindex_lt : gindex < 2 ^ 64
  deriving DecidableEq

def SszProof.verify (proof : SszProof) (stateRoot : Bytes32) : Bool :=
  SszTree.verifyProofGindex stateRoot proof.gindex proof.leaf proof.branch

/-- A proof of a field with a proof of the key of the item it belongs to. -/
structure KeyedFieldProof where
  field : SszProof
  key : SszProof
  deriving DecidableEq

/-- `usize::is_power_of_two`. -/
def isPowerOfTwo (n : Nat) : Bool := 2 ^ Nat.log2 n = n

def KeyedFieldProof.verify (proof : KeyedFieldProof) (stateRoot expectedKey : Bytes32)
    (fieldsPerItem keyFieldIndex : Nat) : Bool :=
  if !isPowerOfTwo fieldsPerItem then false
  else if !proof.field.verify stateRoot || !proof.key.verify stateRoot then false
  -- the root of a 32-byte key is the key
  else if proof.key.leaf ≠ expectedKey then false
  else if proof.key.gindex &&& (fieldsPerItem - 1) ≠ keyFieldIndex then false
  else
    let shift := Nat.log2 fieldsPerItem
    proof.field.gindex >>> shift = proof.key.gindex >>> shift

/-- The offset of the node key in a validator's block and of the key in a withdrawal's. -/
def validatorFieldNodePubkey : Nat := 6
def withdrawalFieldPubkey : Nat := 4

/-- A proof whose index is cut to 64 bits. -/
def SszProof.at (gindex : Nat) (leaf : Bytes32) (branch : List Bytes32) : SszProof :=
  { gindex := gindex % 2 ^ 64, leaf, branch, gindex_lt := Nat.mod_lt _ (Nat.two_pow_pos 64) }

namespace SszStateTree

def generateScalarProof (tree : SszStateTree) (leafIndex : Nat) : SszProof :=
  .at ((1 <<< tree.top.depth) + leafIndex) (tree.top.getLeaf leafIndex)
    (tree.top.generateProof leafIndex)

/-- The branch of a node of a collection: its siblings in the subtree, the length, the siblings in
the top tree. -/
def collectionBranch (tree : SszStateTree) (topLeafIndex : Nat) (inSubtree : List Bytes32)
    (collectionLength : Nat) : List Bytes32 :=
  inSubtree ++ [hashU64 collectionLength] ++ tree.top.generateProof topLeafIndex

def composeCollectionGindex (tree : SszStateTree) (topLeafIndex : Nat) (subtree : SszTree)
    (itemIndex : Nat) : Nat :=
  let topGindex := (1 <<< tree.top.depth) + topLeafIndex
  (topGindex <<< (subtree.depth + 1)) ||| itemIndex

def buildCollectionBranch (tree : SszStateTree) (topLeafIndex : Nat) (subtree : SszTree)
    (itemIndex collectionLength : Nat) : List Bytes32 :=
  tree.collectionBranch topLeafIndex (subtree.generateProof itemIndex) collectionLength

/-- A proof of one leaf of a collection. -/
def leafProof (tree : SszStateTree) (topLeafIndex : Nat) (subtree : SszTree)
    (leafIndex collectionLength : Nat) : SszProof :=
  .at (tree.composeCollectionGindex topLeafIndex subtree leafIndex) (subtree.getLeaf leafIndex)
    (tree.buildCollectionBranch topLeafIndex subtree leafIndex collectionLength)

/-- A proof of the root of an item's block; `shift` is the distance of the block's root from the
leaf of the top tree. -/
def blockProof (tree : SszStateTree) (topLeafIndex : Nat) (subtree : SszTree)
    (fieldsPerItem shift slot collectionLength : Nat) : SszProof :=
  let nodeIndex := subtree.capacity / fieldsPerItem + slot
  let topGindex := (1 <<< tree.top.depth) + topLeafIndex
  .at ((topGindex <<< shift) ||| slot) (subtree.getNode nodeIndex)
    (tree.collectionBranch topLeafIndex (subtree.generateProofFromNode nodeIndex) collectionLength)

/-! ### Validators -/

def getValidatorIndex (keys : List Bytes32) (pubkey : Bytes32) : Option Nat :=
  keys.findIdx? fun key => key = pubkey

def validatorAccountProof (tree : SszStateTree) (slot : Nat) : SszProof :=
  tree.blockProof Leaf.validatorAccountsRoot tree.validatorTree validatorFieldsPerAccount
    (tree.validatorTree.depth - Nat.log2 validatorFieldsPerAccount + 1) slot tree.validatorCount

def generateValidatorProof (tree : SszStateTree) (pubkey : Bytes32) (keys : List Bytes32) :
    Option SszProof :=
  (getValidatorIndex keys pubkey).map tree.validatorAccountProof

/-- A proof of one field of a validator; the source panics on a field index past the block. -/
def generateValidatorFieldProof (tree : SszStateTree) (pubkey : Bytes32) (fieldIndex : Nat)
    (keys : List Bytes32) : Option SszProof :=
  if fieldIndex < validatorFieldsPerAccount then
    (getValidatorIndex keys pubkey).map fun slot =>
      tree.leafProof Leaf.validatorAccountsRoot tree.validatorTree
        (slot * validatorFieldsPerAccount + fieldIndex) tree.validatorCount
  else none

def generateValidatorKeyedFieldProof (tree : SszStateTree) (pubkey : Bytes32) (fieldIndex : Nat)
    (keys : List Bytes32) : Option KeyedFieldProof := do
  let field ← tree.generateValidatorFieldProof pubkey fieldIndex keys
  let key ← tree.generateValidatorFieldProof pubkey validatorFieldNodePubkey keys
  return { field, key }

/-! ### The collections addressed by position -/

/-- A proof of the item at `index`, when there is one. -/
def itemProof (tree : SszStateTree) (topLeafIndex : Nat) (subtree : SszTree)
    (fieldsPerItem shift count index : Nat) : Option SszProof :=
  if index ≥ count then none
  else some (tree.blockProof topLeafIndex subtree fieldsPerItem shift index count)

/-- A proof of a field of the item at `index`, when both are there. -/
def itemFieldProof (tree : SszStateTree) (topLeafIndex : Nat) (subtree : SszTree)
    (fieldsPerItem count index fieldIndex : Nat) : Option SszProof :=
  if index ≥ count ∨ fieldIndex ≥ fieldsPerItem then none
  else some (tree.leafProof topLeafIndex subtree (index * fieldsPerItem + fieldIndex) count)

def generateDepositProof (tree : SszStateTree) (index : Nat) : Option SszProof :=
  tree.itemProof Leaf.depositQueueRoot tree.depositTree depositFieldsPerItem
    (tree.depositTree.depth - 2) tree.depositCount index

def generateDepositFieldProof (tree : SszStateTree) (index fieldIndex : Nat) : Option SszProof :=
  tree.itemFieldProof Leaf.depositQueueRoot tree.depositTree depositFieldsPerItem
    tree.depositCount index fieldIndex

def generateWithdrawalProof (tree : SszStateTree) (index : Nat) : Option SszProof :=
  tree.itemProof Leaf.withdrawalQueueRoot tree.withdrawalTree withdrawalFieldsPerItem
    (tree.withdrawalTree.depth - 2) tree.withdrawalCount index

def generateWithdrawalFieldProof (tree : SszStateTree) (index fieldIndex : Nat) :
    Option SszProof :=
  tree.itemFieldProof Leaf.withdrawalQueueRoot tree.withdrawalTree withdrawalFieldsPerItem
    tree.withdrawalCount index fieldIndex

def generateWithdrawalProofByKey (tree : SszStateTree) (pubkey : Bytes32) : Option SszProof := do
  let slot ← tree.withdrawalPubkeyIndex.find? pubkey
  tree.generateWithdrawalProof slot

def generateWithdrawalFieldProofByKey (tree : SszStateTree) (pubkey : Bytes32) (fieldIndex : Nat) :
    Option SszProof := do
  let slot ← tree.withdrawalPubkeyIndex.find? pubkey
  tree.generateWithdrawalFieldProof slot fieldIndex

def generateWithdrawalKeyedFieldProofByKey (tree : SszStateTree) (pubkey : Bytes32)
    (fieldIndex : Nat) : Option KeyedFieldProof := do
  let slot ← tree.withdrawalPubkeyIndex.find? pubkey
  let field ← tree.generateWithdrawalFieldProof slot fieldIndex
  let key ← tree.generateWithdrawalFieldProof slot withdrawalFieldPubkey
  return { field, key }

def generateProtocolParamProof (tree : SszStateTree) (index : Nat) : Option SszProof :=
  tree.itemProof Leaf.protocolParamChangesRoot tree.protocolParamTree protocolParamFieldsPerItem
    tree.protocolParamTree.depth tree.protocolParamCount index

def generateProtocolParamFieldProof (tree : SszStateTree) (index fieldIndex : Nat) :
    Option SszProof :=
  tree.itemFieldProof Leaf.protocolParamChangesRoot tree.protocolParamTree
    protocolParamFieldsPerItem tree.protocolParamCount index fieldIndex

def generateAddedValidatorProof (tree : SszStateTree) (index : Nat) : Option SszProof :=
  tree.itemProof Leaf.addedValidatorsRoot tree.addedValidatorTree addedValidatorFieldsPerItem
    (tree.addedValidatorTree.depth - Nat.log2 addedValidatorFieldsPerItem + 1)
    tree.addedValidatorCount index

def generateAddedValidatorFieldProof (tree : SszStateTree) (index fieldIndex : Nat) :
    Option SszProof :=
  tree.itemFieldProof Leaf.addedValidatorsRoot tree.addedValidatorTree addedValidatorFieldsPerItem
    tree.addedValidatorCount index fieldIndex

/-- A removed validator is one leaf. -/
def generateRemovedValidatorProof (tree : SszStateTree) (index : Nat) : Option SszProof :=
  if index ≥ tree.removedValidatorCount then none
  else some (tree.leafProof Leaf.removedValidatorsRoot tree.removedValidatorTree index
    tree.removedValidatorCount)

def generateAddedValidatorProofByKey (tree : SszStateTree) (nodeKey : PublicKey)
    (addedValidators : SortedMap Nat (List AddedValidator)) : Option SszProof := do
  let index ← (addedValidators.values.flatMap id).findIdx? fun av => av.nodeKey = nodeKey
  tree.generateAddedValidatorProof index

def generateRemovedValidatorProofByKey (tree : SszStateTree) (nodeKey : PublicKey)
    (removedValidators : List PublicKey) : Option SszProof := do
  let index ← removedValidators.findIdx? fun key => key = nodeKey
  tree.generateRemovedValidatorProof index

end SszStateTree

end Proofs

end Summit
