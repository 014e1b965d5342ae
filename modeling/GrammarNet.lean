import GrammarNet.Drawing
import GrammarNet.Session
import GrammarNet.Proofs.RangeSet.Canonical
import GrammarNet.Proofs.Pushdown.Collapse
import GrammarNet.Proofs.Search.Recast
import GrammarNet.Proofs.Search.Direct
import GrammarNet.Proofs.Search.Invoking
import GrammarNet.Proofs.Search.Offers
import GrammarNet.Proofs.Search.Passing
import GrammarNet.Proofs.Search.Rebased
import GrammarNet.Proofs.Search.Reordered
import GrammarNet.Proofs.Search.Unread
import GrammarNet.Proofs.Construction.Building
import GrammarNet.Proofs.Construction.CallOrder
import GrammarNet.Proofs.Construction.Flags
import GrammarNet.Proofs.Construction.Lasting
import GrammarNet.Proofs.Construction.Mixed
import GrammarNet.Proofs.Construction.Numbering
import GrammarNet.Proofs.Construction.Returns
import GrammarNet.Proofs.Construction.Ruled
import GrammarNet.Proofs.Construction.Verified
import GrammarNet.Proofs.Lookahead.Expected
import GrammarNet.Proofs.Lookahead.Levels
import GrammarNet.Proofs.Lookahead.History
import GrammarNet.Proofs.Lookahead.Matching
import GrammarNet.Proofs.Lookahead.Analyses
import GrammarNet.Proofs.Lookahead.Covering
import GrammarNet.Proofs.Lookahead.Invocation
import GrammarNet.Proofs.Lookahead.Exhausted
import GrammarNet.Proofs.Lookahead.Order
import GrammarNet.Proofs.Lookahead.Alternatives
import GrammarNet.Proofs.Lookahead.Unread
import GrammarNet.Proofs.Lookahead.ReturnEdges
import GrammarNet.Proofs.Lookahead.Gathering
import GrammarNet.Proofs.Lookahead.Roots
import GrammarNet.Proofs.Lookahead.Stopping
import GrammarNet.Proofs.Lookahead.CalledRules
import GrammarNet.Proofs.Drawing.Quoting
import GrammarNet.Proofs.Drawing.Reading
