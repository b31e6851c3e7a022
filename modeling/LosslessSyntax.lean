import LosslessSyntax.Proofs.Update
import LosslessSyntax.Proofs.Locality
import LosslessSyntax.Proofs.Lossless
import LosslessSyntax.Proofs.Comparison
import LosslessSyntax.Proofs.Tokens
import LosslessSyntax.Proofs.Entries
import LosslessSyntax.Proofs.Refusal
import LosslessSyntax.Proofs.Narrowest
import LosslessSyntax.Proofs.Green.Grammar
import LosslessSyntax.Proofs.Siblings
import LosslessSyntax.Proofs.Trivia
import LosslessSyntax.Proofs.Overflow
import LosslessSyntax.Proofs.TypedLists
import LosslessSyntax.Proofs.KindSet
import LosslessSyntax.Proofs.Rooms
import LosslessSyntax.Proofs.Nesting
