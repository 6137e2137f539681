import LetChain.Main
import LetChain.Proofs.Command.Confined
import LetChain.Proofs.Compiled.Bounded
import LetChain.Proofs.Compiled.Lifted
import LetChain.Proofs.Compiled.Spans
import LetChain.Proofs.Machine.Monotone
import LetChain.Proofs.Machine.Ranges
import LetChain.Proofs.Machine.Requests
import LetChain.Proofs.Compiled.Keyed
import LetChain.Proofs.Scoping.Arena
import LetChain.Proofs.Scoping.Visibility
import LetChain.Proofs.Syntax.Climbing
import LetChain.Proofs.Syntax.Outlined
import LetChain.Proofs.Text.Joins
import LetChain.Proofs.Text.Positions
import LetChain.Proofs.Token.Relexed
