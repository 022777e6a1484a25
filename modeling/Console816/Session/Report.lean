import Console816.Session

namespace Console816.SessionError

-- The first line of a cause follows `first`, and its other lines begin at the same column.
private def cause (first : String) (message : String) : String :=
  let indent := "\n".pushn ' ' first.length
  "\n" ++ first ++ indent.intercalate (message.splitOn "\n")

private def numbered (index : Nat) : String :=
  let digits := toString index
  "".pushn ' ' (5 - digits.length) ++ digits ++ ": "

-- A single cause stands alone, several are counted from zero.
private def causes : List String → List String
  | [] => []
  | [only] => [cause "    " only]
  | messages => messages.zipIdx.map fun (message, index) => cause (numbered index) message

-- The text in which a failed session ends.
def report (error : SessionError) : String :=
  match error.trail with
  | [] => ""
  | [message] => "Error: " ++ message
  | message :: below => "Error: " ++ message ++ "\n\nCaused by:" ++ String.join (causes below)

end Console816.SessionError
