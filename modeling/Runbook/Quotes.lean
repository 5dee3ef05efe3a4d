/-!
# Quotes in a command

A quote counts unless a backslash before it escapes it; a backslash escapes the character behind it,
inside quotes as well. `hasUnmatchedQuotes` asks whether the single or the double quotes that count
are odd in number.
-/

namespace Runbook

/-- Which quotes are odd in number after the text, given what they were before it. -/
def quoteParity : (escaped oddSingle oddDouble : Bool) → List Char → Bool × Bool
  | _, single, double, [] => (single, double)
  | true, single, double, _ :: rest => quoteParity false single double rest
  | false, single, double, c :: rest =>
    if c = '\\' then quoteParity true single double rest
    else if c = '\'' then quoteParity false (!single) double rest
    else if c = '"' then quoteParity false single (!double) rest
    else quoteParity false single double rest

/-- Whether the single or the double quotes of a command are odd in number. -/
def hasUnmatchedQuotes (command : String) : Bool :=
  let odd := quoteParity false false false command.toList
  odd.1 || odd.2

end Runbook
