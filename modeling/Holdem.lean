import Holdem.Main
import Holdem.Settings.Writer
import Holdem.Proofs.Flat.Basic
import Holdem.Proofs.Flat.Steps
import Holdem.Proofs.Outcome
import Holdem.Proofs.Within
import Holdem.Proofs.Snapshot
import Holdem.Proofs.Flat.Invariants
import Holdem.Proofs.Flat.Ledger
import Holdem.Proofs.Table.Simulation
import Holdem.Proofs.Flat.Rounds
import Holdem.Proofs.Table.Refinement
import Holdem.Proofs.Table.Conservation
import Holdem.Proofs.Table.Closing
import Holdem.Proofs.Table.Playing
import Holdem.Proofs.Table.Progress
import Holdem.Proofs.Table.Termination
import Holdem.Proofs.RankSet
import Holdem.Proofs.Hand.Counting
import Holdem.Proofs.Hand.Category
import Holdem.Proofs.Hand.Spelling
import Holdem.Proofs.Hand.Order
import Holdem.Proofs.Hand.BestFive
import Holdem.Proofs.Hand.Rules
import Holdem.Proofs.Flat.Seats
import Holdem.Proofs.Flat.Turns
import Holdem.Proofs.Table.Plays
import Holdem.Proofs.Table.Turns
import Holdem.Proofs.Betting.Listing
import Holdem.Proofs.Betting.Sizes
import Holdem.Proofs.Betting.Candidates
import Holdem.Proofs.Table.Stacks
import Holdem.Proofs.Overlap
import Holdem.Proofs.Deck
import Holdem.Proofs.Showdown
import Holdem.Proofs.Table.Cards
import Holdem.Proofs.Table.Alike
import Holdem.Proofs.Table.Flattening
import Holdem.Proofs.Table.Overflow
import Holdem.Proofs.Betting.Amounts
import Holdem.Proofs.Betting.Fractions
import Holdem.Proofs.Table.Faults
import Holdem.Proofs.Betting.Legality
import Holdem.Proofs.Flat.Standing
import Holdem.Proofs.Table.Forward
import Holdem.Proofs.Table.LargestBet
import Holdem.Proofs.Scalar.Laws
import Holdem.Proofs.Scalar.Binary
import Holdem.Proofs.Scalar
import Holdem.Proofs.Search.Mishaps
import Holdem.Proofs.Search.Sampling
import Holdem.Proofs.Search.Children
import Holdem.Proofs.Search.Expansion
import Holdem.Proofs.Search.Nodes
import Holdem.Proofs.Search.Failures
import Holdem.Proofs.Search.Values
import Holdem.Proofs.Search.Decision
import Holdem.Proofs.Search.Growth
import Holdem.Proofs.Search.Budgets
import Holdem.Proofs.Search.Game
import Holdem.Proofs.Search.Hazards
import Holdem.Proofs.Opponent.Separation
import Holdem.Proofs.Hand.MoreCards
import Holdem.Proofs.Concurrence
import Holdem.Proofs.Ledger.Rotation
import Holdem.Proofs.Table.InStep
import Holdem.Proofs.Table.Resemblance
import Holdem.Proofs.Table.Rotation
import Holdem.Proofs.Search.Twins
import Holdem.Proofs.Search.DeadCards
import Holdem.Proofs.Flat.Raises
import Holdem.Proofs.Table.Trace
import Holdem.Proofs.Betting.Soundness
import Holdem.Proofs.Payouts
import Holdem.Proofs.Table.Showdowns
import Holdem.Proofs.Awards
import Holdem.Proofs.Table.Winners
import Holdem.Proofs.Table.Bookkeeping
import Holdem.Proofs.Search.Histogram
import Holdem.Proofs.Search.Reexpansion
import Holdem.Proofs.Search.Ranking
import Holdem.Proofs.CommandLine
import Holdem.Proofs.Card.Notation
import Holdem.Proofs.Hand.Notation
import Holdem.Proofs.Opponent.Habits
import Holdem.Proofs.Scalar.Extended
import Holdem.Proofs.Opponent.Replies
import Holdem.Proofs.Opponent.Accounts
import Holdem.Proofs.Hand.Word
import Holdem.Proofs.Hand.Sets
import Holdem.Proofs.Deck.Dealing
import Holdem.Proofs.Betting.Reduction
