import OracleNFA.Matching
import OracleNFA.Proofs.Contract
import OracleNFA.Proofs.EndOfInput
import OracleNFA.Proofs.Search
import OracleNFA.Proofs.Configuration
import OracleNFA.Proofs.Threshold
import OracleNFA.Proofs.Discipline
import OracleNFA.Proofs.Exhaustion
import OracleNFA.Proofs.Greedy
import OracleNFA.Proofs.Independence
import OracleNFA.Proofs.Mending
import OracleNFA.Proofs.Account
import OracleNFA.Proofs.Surfacing
import OracleNFA.Proofs.Session
import OracleNFA.Proofs.Grammar
import OracleNFA.Proofs.Correspondence
import OracleNFA.Proofs.Exchange
import OracleNFA.Proofs.Anchoring
import OracleNFA.Proofs.Suffix
import OracleNFA.Proofs.Horizon
import OracleNFA.Proofs.EndSymbol
import OracleNFA.Proofs.Relevance
import OracleNFA.Proofs.Interpretation
import OracleNFA.Proofs.QueryOrder
import OracleNFA.Proofs.Resolution
import OracleNFA.Proofs.LargerBudget
import OracleNFA.Proofs.Spelling
import OracleNFA.Proofs.Decoding
import OracleNFA.Proofs.Matcher
import OracleNFA.Proofs.Reading
import OracleNFA.Proofs.Kinds
import OracleNFA.Proofs.RangeIssues
import OracleNFA.Proofs.Projection
