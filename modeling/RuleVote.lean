import RuleVote.Number.Single
import RuleVote.Text.Blank
import RuleVote.Text.Case
import RuleVote.Rule.Layout
import RuleVote.Rule.Render
import RuleVote.Json.Reader
import RuleVote.Json.Value
import RuleVote.Rule.Codec
import RuleVote.Json.Decoder
import RuleVote.Random.Draw
import RuleVote.Matrix
import RuleVote.Label.Analysis
import RuleVote.Label.Preview
import RuleVote.Voter.Majority
import RuleVote.Label.Labeler
import RuleVote.DataCodec
import RuleVote.Score.Basic
import RuleVote.Score.Folds
import RuleVote.Learn.Standardize
import RuleVote.Learn.LogisticRegression
import RuleVote.Learn.Perceptron
import RuleVote.Surrogate.Basic
import RuleVote.Worker.Address
import RuleVote.Worker.Basic
import RuleVote.Run.Uuid
import RuleVote.Run.Moment
import RuleVote.Run.Config
import RuleVote.Store.Memory
import RuleVote.Store.Directory
import RuleVote.Run.Session
import RuleVote.Toml.Reader
import RuleVote.CommandLine.Program
import RuleVote.Main
import RuleVote.Proofs.Rule.FixedPoint
import RuleVote.Proofs.Rule.Evaluation
import RuleVote.Proofs.Rule.Resolution
import RuleVote.Proofs.Rule.Complement
import RuleVote.Proofs.Rule.SingleComparison
import RuleVote.Proofs.Rule.Comments
import RuleVote.Proofs.Rule.Dependence
import RuleVote.Proofs.Label.CodeNames
import RuleVote.Proofs.Label.Compilation
import RuleVote.Proofs.Label.CodeReturns
import RuleVote.Proofs.Table.Shape
import RuleVote.Proofs.Label.Votes
import RuleVote.Proofs.Random.Draw
import RuleVote.Proofs.Voter.Ties
import RuleVote.Proofs.Voter.Probabilities
import RuleVote.Proofs.Voter.Plurality
import RuleVote.Proofs.Voter.TiePolicies
import RuleVote.Proofs.Label.Creation
import RuleVote.Proofs.Label.Lifecycle
import RuleVote.Proofs.Label.Consistency
import RuleVote.Proofs.Label.Totality
import RuleVote.Proofs.Label.Results
import RuleVote.Proofs.Label.RuleOrder
import RuleVote.Proofs.Run.Independence
import RuleVote.Proofs.Run.Completion
import RuleVote.Proofs.Run.History
import RuleVote.Proofs.Run.GoldLabels
import RuleVote.Proofs.Worker.Totality
import RuleVote.Proofs.Worker.Instructions
import RuleVote.Proofs.Surrogate.Unscored
import RuleVote.Proofs.Surrogate.Labeling
import RuleVote.Proofs.Surrogate.Unlabeled
import RuleVote.Proofs.Run.Readback
import RuleVote.Proofs.Run.Accounting
import RuleVote.Proofs.Store.Interchange
import RuleVote.Proofs.Number.Places
import RuleVote.Proofs.Number.Stepwise
import RuleVote.Proofs.Number.Brackets
import RuleVote.Proofs.Number.Survival
import RuleVote.Proofs.Json.Singles
import RuleVote.Proofs.Score.ClassCounts
import RuleVote.Proofs.Label.Analysis
import RuleVote.Proofs.Label.Preview
import RuleVote.Proofs.Table.Representation
import RuleVote.Proofs.Store.GoldLabels
import RuleVote.Proofs.Voter.Refitting
import RuleVote.Proofs.Voter.Denominators
import RuleVote.Proofs.Surrogate.RowWise
import RuleVote.Proofs.Run.Environment
import RuleVote.Proofs.Learn.Epoch
import RuleVote.Proofs.Label.RowTasks
