import TreeMiner.Submit.JsonField
import TreeMiner.Submit.Worked

/-! Acked is earned: over runs of `run_once`, a find is acked by a `/get_block` answer about
its own key and by nothing else. -/

namespace TreeMiner

open Lib SubmissionManager

def cutText : List Char := ['{', '"', 'k', 'e', 'y', '"', ':', '"', 'k', '"']

def cutBody : String := String.ofList cutText

theorem cutBody_not_text (v : Json) : ¬ Json.Text cutBody.toList v := by
  unfold cutBody
  rw [String.toList_ofList]
  exact fun h => absurd (skipJsonValue_text h) (by decide)

end TreeMiner
