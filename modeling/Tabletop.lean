import Tabletop.Argument
import Tabletop.Calculator
import Tabletop.Chat.Command
import Tabletop.Chat.Message
import Tabletop.Chat.Session
import Tabletop.Die
import Tabletop.Error
import Tabletop.Evaluation
import Tabletop.Faces
import Tabletop.Genesys.Kind
import Tabletop.Genesys.Symbol
import Tabletop.Genesys.Tally
import Tabletop.Lexeme
import Tabletop.Lexeme.Tokens
import Tabletop.Limits
import Tabletop.Number.Dyadic
import Tabletop.Number.Literal
import Tabletop.Number.Shortest
import Tabletop.Number.Written
import Tabletop.Operation
import Tabletop.Operator
import Tabletop.Operator.Arithmetic
import Tabletop.Operator.MathFunction
import Tabletop.Operator.PoolOperator
import Tabletop.Pool
import Tabletop.Pool.Breakdown
import Tabletop.Pool.Count
import Tabletop.Pool.Explode
import Tabletop.Pool.Keep
import Tabletop.Pool.Reroll
import Tabletop.Postfix
import Tabletop.Rack
import Tabletop.Request
import Tabletop.Roll
import Tabletop.Shorthand
import Tabletop.Shorthand.Chronicles
import Tabletop.Shorthand.Exalted
import Tabletop.Shorthand.Narrative
import Tabletop.Shorthand.Parts
import Tabletop.Shorthand.RollAndKeep
import Tabletop.Shorthand.StoryShaper
import Tabletop.Sum
import Tabletop.Text.Blank
import Tabletop.Text.CodeBlock
import Tabletop.Text.Digit
import Tabletop.Text.LowerCase
import Tabletop.Text.Markdown
import Tabletop.Text.Split
import Tabletop.Text.Word
import Tabletop.Token
import Tabletop.Tray
import Tabletop.Value
import Tabletop.Proofs.Basic
import Tabletop.Proofs.Tree
import Tabletop.Proofs.Print
import Tabletop.Proofs.LexBack
import Tabletop.Proofs.Lexemes
import Tabletop.Proofs.Legible
import Tabletop.Proofs.ReadBack
import Tabletop.Proofs.Operations
import Tabletop.Proofs.StackRun
import Tabletop.Proofs.TrayLog
import Tabletop.Proofs.Yields
import Tabletop.Proofs.Changes
import Tabletop.Proofs.SoundPool
import Tabletop.Proofs.Nesting
import Tabletop.Proofs.Bounded
import Tabletop.Proofs.SoundRoll
import Tabletop.Proofs.FailsOnly
import Tabletop.Proofs.Material
import Tabletop.Proofs.Kinds
import Tabletop.Proofs.Foretold
import Tabletop.Proofs.Generations
import Tabletop.Proofs.Explosions
import Tabletop.Proofs.RackRolls
import Tabletop.Proofs.Serving
import Tabletop.Proofs.AllOrNothing
import Tabletop.Proofs.Lineage
import Tabletop.Proofs.Refusals
import Tabletop.Proofs.Dealing
import Tabletop.Proofs.Locality
import Tabletop.Proofs.Sentences
import Tabletop.Proofs.Cancelling
import Tabletop.Proofs.PoolRolls
import Tabletop.Proofs.SmallNumbers
import Tabletop.Proofs.Trimming
import Tabletop.Proofs.NarrativeRolls
import Tabletop.Proofs.Grouping
import Tabletop.Proofs.LexGroup
import Tabletop.Proofs.ChainRun
import Tabletop.Proofs.CommandParts
import Tabletop.Proofs.FaceLists
import Tabletop.Proofs.FlagTexts
import Tabletop.Proofs.ChroniclesRule
import Tabletop.Proofs.ChroniclesRolls
import Tabletop.Proofs.Growing
import Tabletop.Proofs.Keeping
import Tabletop.Proofs.DigitRuns
import Tabletop.Proofs.ExaltedRolls
import Tabletop.Proofs.Failures
import Tabletop.Proofs.PlainRuns
import Tabletop.Proofs.Readers
import Tabletop.Proofs.RollAndKeepRolls
import Tabletop.Proofs.FiniteDoubles
import Tabletop.Proofs.Weights
import Tabletop.Proofs.RunWeights
import Tabletop.Proofs.Showing
import Tabletop.Proofs.Remaking
import Tabletop.Proofs.Guarded
import Tabletop.Proofs.Expected
import Tabletop.Proofs.Scopes
import Tabletop.Proofs.Canonical
import Tabletop.Proofs.Endless
import Tabletop.Proofs.Stopping
import Tabletop.Proofs.Additive
import Tabletop.Proofs.Nested
import Tabletop.Proofs.Merging
import Tabletop.Proofs.PairedRolls
import Tabletop.Proofs.Counting
import Tabletop.Proofs.KeepOrder
import Tabletop.Proofs.Breakdowns
import Tabletop.Proofs.Rerolls
import Tabletop.Proofs.Chases
import Tabletop.Proofs.Confinement
import Tabletop.Proofs.Fences
import Tabletop.Proofs.LowerCase
import Tabletop.Proofs.Requests
import Tabletop.Proofs.CalculatorRolls
import Tabletop.Proofs.StoryShaperBase
import Tabletop.Proofs.DieMoves
import Tabletop.Proofs.GroupAsOperand
import Tabletop.Proofs.ArgumentTexts
