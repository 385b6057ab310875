/-
**The codecs of blocks and finalized headers**: `Block::new_with_verify`, the SSZ containers and the
readers of `block.rs` and `header.rs`.

The digest of a block is that of its header, so decoding compares the hashes of the body with the
header. The parts of the containers are encoded by derived code and by libraries; `BlockDecoders`
holds their decoders. A buffer is the list of its chunks: a block is decoded in place when it lies
in the first chunk, and copied otherwise.
-/

import Summit.Model.Application

set_option linter.unusedSectionVars false

namespace Summit

open Bytes

/-- A `u32` offset or count of an SSZ container. -/
def u32At (bytes : List UInt8) (start : Nat) : Nat := leNat ((bytes.drop start).take 4)

/-! ### Buffers in chunks -/

/-- Skip `n` bytes. -/
def advance : Nat → List (List UInt8) → List (List UInt8)
  | _, [] => []
  | n, chunk :: rest =>
    if n < chunk.length then chunk.drop n :: rest else advance (n - chunk.length) rest

section Blocks

variable [Crypto] [Payloads]

/-- The derived decoders of the parts, and the codec of finalizations for a number of
participants. -/
structure BlockDecoders where
  header : List UInt8 → Option Header
  payload : List UInt8 → Option ExecutionPayload
  requests : List UInt8 → Option (List (List UInt8))
  writeFinalization : Finalization → List UInt8
  readFinalization : Nat → Reader Finalization

namespace FullBlock

/-- A block whose body is the one its header commits to. -/
def newWithVerify (header : Header) (payload : ExecutionPayload)
    (executionRequests : List (List UInt8)) : Except String FullBlock :=
  let payloadHash := Crypto.sha256 (Payloads.asSszBytes payload)
  let executionRequestHash :=
    if executionRequests ≠ [] then Crypto.sha256 (requestsSsz executionRequests) else zeroChunk
  if payloadHash ≠ header.payloadHash then .error "Payload hash mismatch"
  else if executionRequestHash ≠ header.executionRequestHash then
    .error "Execution request hash mismatch"
  else .ok { header, payload, executionRequests }

/-- Three parts of variable size, laid out as a list of three byte strings. -/
def asSszBytes (block : FullBlock) : List UInt8 :=
  requestsSsz [block.header.asSszBytes, Payloads.asSszBytes block.payload,
    requestsSsz block.executionRequests]

/-- The parts of the container. The first offset points behind the offsets, the others do not
decrease and stay inside. -/
def splitParts (bytes : List UInt8) : Option (List UInt8 × List UInt8 × List UInt8) :=
  let second := u32At bytes 4
  let third := u32At bytes 8
  if 12 ≤ bytes.length ∧ u32At bytes 0 = 12 ∧ 12 ≤ second ∧ second ≤ third ∧
      third ≤ bytes.length then
    some ((bytes.drop 12).take (second - 12), (bytes.drop second).take (third - second),
      bytes.drop third)
  else none

def fromSszBytes (decoders : BlockDecoders) (bytes : List UInt8) : Option FullBlock := do
  let (headerBytes, payloadBytes, requestBytes) ← splitParts bytes
  let header ← decoders.header headerBytes
  let payload ← decoders.payload payloadBytes
  let executionRequests ← decoders.requests requestBytes
  (newWithVerify header payload executionRequests).toOption

def encode (block : FullBlock) : List UInt8 :=
  beBytes 4 block.asSszBytes.length ++ block.asSszBytes

/-- The value and the rest of the buffer. -/
def readCfg (decoders : BlockDecoders) (chunks : List (List UInt8)) :
    Except ReadError (FullBlock × List (List UInt8)) :=
  if chunks.flatten.length < 4 then .error .endOfBuffer
  else
    let len := beNat (chunks.flatten.take 4)
    let buf := advance 4 chunks
    if len > buf.flatten.length then .error (.invalid "Block" "improper encoded length")
    else
      -- the first chunk when it is long enough, otherwise a copy
      let bytes := if (buf.headD []).length ≥ len then (buf.headD []).take len
        else buf.flatten.take len
      match fromSszBytes decoders bytes with
      | none => .error (.invalid "Block" "Unable to decode bytes for block")
      | some block => .ok (block, advance len buf)

end FullBlock

/-! ### Finalized headers -/

def maxFinalizedHeaderParticipants : Nat := 100_000

/-- A `FinalizedHeader` with the number of participants its certificate is decoded with. -/
structure CountedHeader extends FinalizedHeader where
  participantCount : Nat

namespace CountedHeader

/-- The certificate has to sign the digest of the fields. -/
def new (header : Header) (finalization : Finalization) (participantCount : Nat) :
    Except String CountedHeader :=
  if finalization.payload ≠ header.computedDigest then
    .error "finalization payload does not match the header digest"
  else .ok { header, finalization, participantCount }

def asSszBytes (decoders : BlockDecoders) (finalized : CountedHeader) : List UInt8 :=
  [leBytes 4 12, leBytes 4 finalized.participantCount,
   leBytes 4 (12 + finalized.header.asSszBytes.length), finalized.header.asSszBytes,
   decoders.writeFinalization finalized.finalization].flatten

/-- What follows the finalization in its part of the container is not looked at. -/
def fromSszBytes (decoders : BlockDecoders) (bytes : List UInt8) : Option CountedHeader := do
  let participantCount := u32At bytes 4
  let second := u32At bytes 8
  guard (12 ≤ bytes.length ∧ u32At bytes 0 = 12 ∧ 12 ≤ second ∧ second ≤ bytes.length)
  guard (participantCount ≤ maxFinalizedHeaderParticipants)
  let header ← decoders.header ((bytes.drop 12).take (second - 12))
  let (finalization, _) ←
    ((decoders.readFinalization participantCount).run (bytes.drop second)).toOption
  (new header finalization participantCount).toOption

def encode (decoders : BlockDecoders) (finalized : CountedHeader) : List UInt8 :=
  beBytes 4 (finalized.asSszBytes decoders).length ++ finalized.asSszBytes decoders

def read (decoders : BlockDecoders) : Reader CountedHeader := do
  let len ← Reader.be 4
  Reader.need len (.invalid "FinalizedHeader" "improper encoded length")
  let payload ← Reader.takeBytes len
  Reader.orFail (fromSszBytes decoders payload)
    (.invalid "FinalizedHeader" "Unable to decode bytes for finalized header")

end CountedHeader

end Blocks

end Summit
