set_option autoImplicit false

namespace SnippetReview

def bonusOptions : List String := ["environment", "release", "beforeSend"]

structure ScoreInputs where
  errors : UInt64 := 0
  warnings : UInt64 := 0
  high : UInt64 := 0
  medium : UInt64 := 0
  bonuses : UInt64 := 0
deriving DecidableEq, Repr

namespace ScoreInputs

def penalty (inputs : ScoreInputs) : Int64 :=
  15 * inputs.errors.toInt64 + 5 * inputs.warnings.toInt64 + 10 * inputs.high.toInt64 + 5 * inputs.medium.toInt64

def bonus (inputs : ScoreInputs) : Int64 :=
  5 * (min inputs.bonuses (UInt64.ofNat bonusOptions.length)).toInt64

def score (inputs : ScoreInputs) : Nat :=
  (max 0 (min 100 (100 - inputs.penalty + inputs.bonus))).toInt.toNat

end ScoreInputs

def counted (count : Nat) (noun : String) : String := if count = 1 then s!"1 {noun}" else s!"{count} {noun}s"

def summarize (errors warnings score : Nat) : String :=
  let rest := s!" (score {score}/100)."
  if errors = 0 ∧ warnings = 0 then "Configuration looks good with no errors or warnings" ++ rest
  else if errors = 0 then "Configuration has " ++ counted warnings "warning" ++ " to review" ++ rest
  else "Configuration has " ++ counted errors "error" ++ " and " ++ counted warnings "warning" ++ rest

end SnippetReview
