import GrammarBench.Service
import GrammarBench.Console.Workbench
import GrammarBench.Console.SetListing
import GrammarBench.Grammar.FirstStore
import GrammarBench.Main
import GrammarBench.Proofs.Derivation
import GrammarBench.Proofs.Symbols
import GrammarBench.Proofs.Lr.Item
import GrammarBench.Proofs.Lr.Closure
import GrammarBench.Proofs.Lr.Automaton
import GrammarBench.Proofs.Lr.Table
import GrammarBench.Proofs.Lr.Stack
import GrammarBench.Proofs.Lr.Viable
import GrammarBench.Proofs.Lr.Soundness
import GrammarBench.Proofs.Ll.Table
import GrammarBench.Proofs.Trace
import GrammarBench.Proofs.Ll.Soundness
import GrammarBench.Proofs.Console.Soundness
import GrammarBench.Proofs.Sets.Reference
import GrammarBench.Proofs.Sets.BodyFirst
import GrammarBench.Proofs.Sets.First
import GrammarBench.Proofs.Sets.Follow
import GrammarBench.Proofs.Lr.ActionSets
import GrammarBench.Proofs.Ll.Termination
import GrammarBench.Proofs.Lr.Forest
import GrammarBench.Proofs.Lr.Termination
import GrammarBench.Proofs.Console.Termination
import GrammarBench.Proofs.Ll.Predict
import GrammarBench.Proofs.Ll.Prefixes
import GrammarBench.Proofs.Lr.Prefixes
import GrammarBench.Proofs.Lr.ItemSetsEnd
import GrammarBench.Proofs.Console.GotoStates
import GrammarBench.Proofs.Console.ConflictCounts
import GrammarBench.Proofs.Sets.FirstStore
