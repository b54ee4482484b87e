import RuleVote.DataCodec
import RuleVote.Surrogate.Settings

/-!
# Settings of a run

A run has two stages: votes are reduced to one label for each item, and a
surrogate learns these labels from the features.
-/

namespace RuleVote

/-- How the votes on an item are reduced to one label. -/
inductive ReductionMethod where
  /-- The majority of votes. -/
  | majority
  /-- A noise model fitted to the votes. -/
  | labelModel
deriving DecidableEq, Repr

/-- The name of a method. -/
def ReductionMethod.name : ReductionMethod → String
  | majority => "majority"
  | labelModel => "label_model"

/-- Settings of the first stage. -/
structure ReductionSettings where
  /-- The method. -/
  method : ReductionMethod
  /-- The most epochs a noise model is fitted for. -/
  epochs : Nat
  /-- The seed of the fit and of ties. -/
  seed : Nat
  /-- What becomes of ties. -/
  tieBreak : TiePolicy
  /-- The identifiers of the rules to be used, unless all are. -/
  selection : Option (List String)
deriving DecidableEq, Repr

/-- Settings of the second stage. -/
structure LearningSettings where
  /-- The surrogate. -/
  model : SurrogateSettings
  /-- The number of folds, unless it is the one usual for the surrogate. -/
  folds : Option Nat
  /-- Whether only the features that rules read are learned from. -/
  onlyRuleFeatures : Bool
  /-- Whether gold labels replace those found. -/
  includeGold : Bool
  /-- Whether a worker does the training. -/
  remote : Bool
deriving DecidableEq, Repr

/-- The settings used unless others are given. -/
def ReductionSettings.standard : ReductionSettings where
  method := .labelModel
  epochs := 500
  seed := 123
  tieBreak := .abstain
  selection := none

namespace LearningSettings

/-- The settings used unless others are given. -/
def standard : LearningSettings where
  model := .standard
  folds := none
  onlyRuleFeatures := true
  includeGold := false
  remote := false

/-- The number of folds in effect. -/
def effectiveFolds (s : LearningSettings) : Nat := s.folds.getD s.model.defaultFolds

end LearningSettings

/-- Settings of the first stage as JSON. -/
def ReductionSettings.toJson (s : ReductionSettings) : Json :=
  .object [("method", .string s.method.name), ("epochs", .ofNat s.epochs),
    ("seed", .ofNat s.seed), ("tie_break", .string s.tieBreak.name),
    ("selection", .ofOption (.ofList .string) s.selection)]

/-- Settings of the second stage as JSON. -/
def LearningSettings.toJson (s : LearningSettings) : Json :=
  .object [("model", s.model.toJson), ("folds", .ofOption .ofNat s.folds),
    ("only_label_model_features", .bool s.onlyRuleFeatures),
    ("include_gold", .bool s.includeGold), ("remote", .bool s.remote)]

namespace Decoder

/-- A method of reduction. -/
def reductionMethod : Decoder ReductionMethod :=
  bareChoice ([.majority, .labelModel].map fun m => (ReductionMethod.name m, m))

/-- Settings of the first stage, each with its default. -/
def reductionSettings : Decoder ReductionSettings :=
  let s := ReductionSettings.standard
  (ReductionSettings.mk <$> .defaulted "method" reductionMethod s.method
    <*> .defaulted "epochs" nat s.epochs <*> .defaulted "seed" nat s.seed
    <*> .defaulted "tie_break" tiePolicy s.tieBreak
    <*> .defaulted "selection" (nullable (list string)) s.selection
    : RecordDecoder ReductionSettings).decode

/-- Settings of the second stage, each with its default. -/
def learningSettings : Decoder LearningSettings :=
  let s := LearningSettings.standard
  (LearningSettings.mk <$> .defaulted "model" surrogateSettings s.model
    <*> .defaulted "folds" (nullable nat) s.folds
    <*> .defaulted "only_label_model_features" bool s.onlyRuleFeatures
    <*> .defaulted "include_gold" bool s.includeGold <*> .defaulted "remote" bool s.remote
    : RecordDecoder LearningSettings).decode

end Decoder

end RuleVote
