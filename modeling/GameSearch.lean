import GameSearch.Cancellation
import GameSearch.CommandLine.Arguments
import GameSearch.CommandLine.Usage
import GameSearch.CommandLine.Words
import GameSearch.Configuration.Directory
import GameSearch.Configuration.Document
import GameSearch.Configuration.Sections
import GameSearch.Configuration.Sources
import GameSearch.Error
import GameSearch.Game
import GameSearch.Interrupt
import GameSearch.Journal.Entry
import GameSearch.Journal.Filter
import GameSearch.Journal.Rule
import GameSearch.Main
import GameSearch.Match.Contest
import GameSearch.Match.Engine
import GameSearch.Match.Plan
import GameSearch.Match.Seat
import GameSearch.Match.Series
import GameSearch.Minimax.AlphaBeta
import GameSearch.Minimax.FullWidth
import GameSearch.Minimax.Problem
import GameSearch.Playout
import GameSearch.Proofs.Cancellation
import GameSearch.Proofs.CommandLine
import GameSearch.Proofs.Configuration.Settings
import GameSearch.Proofs.Match.Contest
import GameSearch.Proofs.Match.Precedence
import GameSearch.Proofs.Match.Seats
import GameSearch.Proofs.Minimax.Answers
import GameSearch.Proofs.Minimax.Anytime
import GameSearch.Proofs.Minimax.Checks
import GameSearch.Proofs.Minimax.Duality
import GameSearch.Proofs.Minimax.Explored
import GameSearch.Proofs.Minimax.Lines
import GameSearch.Proofs.Minimax.Pruning
import GameSearch.Proofs.Minimax.Reference
import GameSearch.Proofs.Minimax.Savings
import GameSearch.Proofs.Minimax.Selection
import GameSearch.Proofs.Minimax.Sides
import GameSearch.Proofs.Minimax.Spent
import GameSearch.Proofs.Minimax.Window
import GameSearch.Proofs.Occurrences
import GameSearch.Proofs.Playout
import GameSearch.Proofs.Playout.Ending
import GameSearch.Proofs.Rules
import GameSearch.Proofs.Table.Acceptance
import GameSearch.Proofs.Table.Consistency
import GameSearch.Proofs.Table.FullTree
import GameSearch.Proofs.Table.Sound
import GameSearch.Proofs.Table.Uniform
import GameSearch.Proofs.TicTacToe
import GameSearch.Proofs.TicTacToe.Rules
import GameSearch.Proofs.TicTacToe.Turns
import GameSearch.Proofs.TreeSearch.Accounting
import GameSearch.Proofs.TreeSearch.Answers
import GameSearch.Proofs.TreeSearch.Balance
import GameSearch.Proofs.TreeSearch.Choice
import GameSearch.Proofs.TreeSearch.Crew
import GameSearch.Proofs.TreeSearch.Drivers
import GameSearch.Proofs.TreeSearch.Everywhere
import GameSearch.Proofs.TreeSearch.Failure
import GameSearch.Proofs.TreeSearch.Finish
import GameSearch.Proofs.TreeSearch.Frame
import GameSearch.Proofs.TreeSearch.Growth
import GameSearch.Proofs.TreeSearch.History
import GameSearch.Proofs.TreeSearch.Iteration
import GameSearch.Proofs.TreeSearch.Ledger
import GameSearch.Proofs.TreeSearch.LifeCycle
import GameSearch.Proofs.TreeSearch.LoneWorker
import GameSearch.Proofs.TreeSearch.Merging
import GameSearch.Proofs.TreeSearch.OtherAgents
import GameSearch.Proofs.TreeSearch.Pairing
import GameSearch.Proofs.TreeSearch.Parents
import GameSearch.Proofs.TreeSearch.PathwiseSum
import GameSearch.Proofs.TreeSearch.Permits
import GameSearch.Proofs.TreeSearch.Progress
import GameSearch.Proofs.TreeSearch.Registry
import GameSearch.Proofs.TreeSearch.Reroot
import GameSearch.Proofs.TreeSearch.Scale
import GameSearch.Proofs.TreeSearch.Shape
import GameSearch.Proofs.TreeSearch.Simulation
import GameSearch.Proofs.TreeSearch.Subtree
import GameSearch.Proofs.TreeSearch.VisitFlow
import GameSearch.Proofs.TreeSearch.VisitOrder
import GameSearch.Proofs.TreeSearch.Walk
import GameSearch.Proofs.TreeSearch.Worker
import GameSearch.Random.Keystream
import GameSearch.Random.Source
import GameSearch.Score
import GameSearch.Session
import GameSearch.Table.Basic
import GameSearch.Table.Entry
import GameSearch.Table.Uniform
import GameSearch.Text.Alphabetic
import GameSearch.Text.Alphanumeric
import GameSearch.Text.Decimal
import GameSearch.Text.Invisible
import GameSearch.Text.Numeral
import GameSearch.Text.Pattern
import GameSearch.Text.Pattern.Bracketed
import GameSearch.Text.Pattern.Modes
import GameSearch.Text.Pattern.Nesting
import GameSearch.Text.Pattern.Opening
import GameSearch.Text.Pattern.Symbol
import GameSearch.Text.Quoted
import GameSearch.Text.Slice
import GameSearch.TicTacToe.Board
import GameSearch.TicTacToe.Rules
import GameSearch.Toml.Document
import GameSearch.Toml.Number
import GameSearch.Toml.Text
import GameSearch.Toml.Value
import GameSearch.TreeSearch.Expansion
import GameSearch.TreeSearch.Iteration
import GameSearch.TreeSearch.Merge
import GameSearch.TreeSearch.Node
import GameSearch.TreeSearch.Permit
import GameSearch.TreeSearch.Policy
import GameSearch.TreeSearch.Registry
import GameSearch.TreeSearch.Root
import GameSearch.TreeSearch.Selection
import GameSearch.TreeSearch.Settings
import GameSearch.TreeSearch.Simulation
import GameSearch.TreeSearch.Statistics
import GameSearch.TreeSearch.Tree
import GameSearch.TreeSearch.Worker
import GameSearch.TreeSearch.Workers
