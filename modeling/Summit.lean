import Summit.Proof.Activations
import Summit.Proof.Binding
import Summit.Proof.BlockBinding
import Summit.Proof.CheckpointSound
import Summit.Proof.CheckpointStart
import Summit.Proof.Confluence
import Summit.Proof.Coupling
import Summit.Proof.GapRepair
import Summit.Proof.Markers
import Summit.Proof.MerkleArray
import Summit.Proof.Notifications
import Summit.Proof.Ownership
import Summit.Proof.Proposals
import Summit.Proof.Recovery
import Summit.Proof.RequestParsing
import Summit.Proof.Rounds
import Summit.Proof.StateProof
