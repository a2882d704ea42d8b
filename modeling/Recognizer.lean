import Recognizer.Automaton.Basic
import Recognizer.Automaton.Construction
import Recognizer.Automaton.Level
import Recognizer.Automaton.Minimize
import Recognizer.Automaton.Refinement
import Recognizer.Automaton.Run
import Recognizer.Automaton.Table
import Recognizer.Cause
import Recognizer.CharacterClass.Basic
import Recognizer.CharacterClass.Span
import Recognizer.CommandLine
import Recognizer.Main
import Recognizer.Ordered
import Recognizer.Pattern.Code
import Recognizer.Pattern.Definition
import Recognizer.Pattern.Token
import Recognizer.Proofs.Automaton.Acceptance
import Recognizer.Proofs.Automaton.Blocks
import Recognizer.Proofs.Automaton.Closure
import Recognizer.Proofs.Automaton.Direct
import Recognizer.Proofs.Automaton.Distinction
import Recognizer.Proofs.Automaton.Edges
import Recognizer.Proofs.Automaton.Labels
import Recognizer.Proofs.Automaton.LastRound
import Recognizer.Proofs.Automaton.Listing
import Recognizer.Proofs.Automaton.Merging
import Recognizer.Proofs.Automaton.Minimality
import Recognizer.Proofs.Automaton.Numbering
import Recognizer.Proofs.Automaton.Objections
import Recognizer.Proofs.Automaton.OneThenMany
import Recognizer.Proofs.Automaton.Partition
import Recognizer.Proofs.Automaton.Parts
import Recognizer.Proofs.Automaton.Recording
import Recognizer.Proofs.Automaton.Repetition
import Recognizer.Proofs.Automaton.Residuals
import Recognizer.Proofs.Automaton.Rounds
import Recognizer.Proofs.Automaton.Runs
import Recognizer.Proofs.Automaton.Search
import Recognizer.Proofs.Automaton.Simulation
import Recognizer.Proofs.Automaton.Stability
import Recognizer.Proofs.Automaton.TwoClasses
import Recognizer.Proofs.Automaton.Viability
import Recognizer.Proofs.Automaton.Worklist
import Recognizer.Proofs.CharacterClass.Bare
import Recognizer.Proofs.CharacterClass.Between
import Recognizer.Proofs.CharacterClass.BothEnds
import Recognizer.Proofs.CharacterClass.Growth
import Recognizer.Proofs.CharacterClass.Hyphen
import Recognizer.Proofs.CharacterClass.Members
import Recognizer.Proofs.CharacterClass.Reading
import Recognizer.Proofs.CharacterClass.Written
import Recognizer.Proofs.CommandLine
import Recognizer.Proofs.Identifier
import Recognizer.Proofs.Pattern.Builder
import Recognizer.Proofs.Pattern.Compilation
import Recognizer.Proofs.Pattern.Cut
import Recognizer.Proofs.Pattern.Descent
import Recognizer.Proofs.Pattern.Grammar
import Recognizer.Proofs.Report.Grid
import Recognizer.Proofs.Report.Lines
import Recognizer.Proofs.Report.Rectangle
import Recognizer.Proofs.Report.TreeDrawing
import Recognizer.Proofs.Report.Views
import Recognizer.Proofs.Text.Delimited
import Recognizer.Proofs.Text.Literals
import Recognizer.Proofs.Tree.Accumulation
import Recognizer.Proofs.Tree.Addresses
import Recognizer.Proofs.Tree.Dense
import Recognizer.Proofs.Tree.Followers
import Recognizer.Proofs.Tree.Grove
import Recognizer.Proofs.Tree.Growing
import Recognizer.Proofs.Tree.Joining
import Recognizer.Proofs.Tree.Language
import Recognizer.Proofs.Tree.LocalWords
import Recognizer.Proofs.Tree.Neighbours
import Recognizer.Proofs.Tree.Notation
import Recognizer.Report.Drawing
import Recognizer.Report.Summary
import Recognizer.Report.TransitionGrid
import Recognizer.Report.TreeTables
import Recognizer.Symbol
import Recognizer.Text.Layout
import Recognizer.Text.Printable
import Recognizer.Text.Word
import Recognizer.Tree.Basic
import Recognizer.Tree.Follow
import Recognizer.Tree.LeafSupply
