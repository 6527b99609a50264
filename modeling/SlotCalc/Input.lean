namespace SlotCalc

/-- What comes of the read after the last line has been delivered. A last line that lacks its end is
delivered like the others, whatever comes after it. -/
inductive Ending
  | endOfInput
  | interrupted
  | failed (reason : String)
  deriving DecidableEq, Repr

inductive Source
  /-- Lines typed in answer to prompts. -/
  | terminal (lines : List String)
  /-- A text that is read with universal newlines: each line ends with a line feed, a carriage
  return or both. -/
  | pipe (text : String)
  deriving DecidableEq, Repr

structure Input where
  source : Source
  ending : Ending
  deriving DecidableEq, Repr

namespace Source

/-- The lines of a text. The last one need not have an end. -/
def splitLines : List Char → List (List Char)
  | [] => []
  | '\r' :: '\n' :: rest => [] :: splitLines rest
  | c :: rest =>
    if c = '\n' ∨ c = '\r' then [] :: splitLines rest
    else
      match splitLines rest with
      | line :: more => (c :: line) :: more
      | [] => [[c]]

def lines : Source → List String
  | terminal lines => lines
  | pipe text => (splitLines text.toList).map String.ofList

end Source

end SlotCalc
